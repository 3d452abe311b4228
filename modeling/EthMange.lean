import EthMange.Lib.Run
import EthMange.Ethernet.TxFifo
import EthMange.Ethernet.RxFifo
import EthMange.Tftp.ReadTransfer
import EthMange.Tftp.WriteTransfer
import EthMange.Tftp.Lifecycle
import EthMange.Tftp.Isolation
import EthMange.Httpd.Stream
import EthMange.Httpd.Lifecycle
import EthMange.Eeprom.RoundTrip
import EthMange.Netconf.Timers
import EthMange.Netconf.StartUp
import EthMange.Tftp.LockStep
import EthMange.Tftp.PeerCheck
import EthMange.Httpd.Noninterference
import EthMange.LedControl.Commands
import EthMange.LedControl.Listen
import EthMange.Telnet.Lifecycle
import EthMange.Ethernet.Preempt
import EthMange.Telnet.Segments
import EthMange.Telnet.Bounds
import EthMange.Telnet.Refused
import EthMange.Tftp.LastBlock
import EthMange.Tftp.Requests
import EthMange.Httpd.PbufRelease
import EthMange.LedControl.Close
import EthMange.LedControl.ClientInit
import EthMange.Lcd.RunTime
import EthMange.Netconf.DhcpRecord
import EthMange.Eeprom.Bus
import EthMange.Touch.Filter
import EthMange.Lcd.Preempt
import EthMange.Lcd.Rect
import EthMange.Lwip.MemRuns
import EthMange.Tcp.Finish
import EthMange.Httpd.Window
