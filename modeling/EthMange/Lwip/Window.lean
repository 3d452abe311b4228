import EthMange.Lib.Credit
import EthMange.Lib.Run
import EthMange.Lwip.Pbuf

/-!
# The receive window

`tcp_receive` takes every segment it delivers from `rcv_wnd`, and drops what
does not fit; `tcp_recved` gives back what an application says it has read. The
receive callback of an application is seen here by its calls of `tcp_recved`.
-/

namespace EthMange

open Credit Run

/-- `TCP_WND`, twice the `TCP_MSS`. -/
def tcpWnd : ℕ := 2 * 1460

/-- `tcp_recved` on the 16-bit `rcv_wnd`. -/
def tcpRecved (rcvWnd len : ℕ) : ℕ :=
  let wnd := (rcvWnd + len) % 2 ^ 16
  if tcpWnd < wnd then tcpWnd else wnd

/-- The lengths that the entries of a log give to `tcp_recved`. -/
def recveds {α : Type*} (recvedLen : α → Option ℕ) (log : List α) : List ℕ :=
  log.filterMap recvedLen

theorem recveds_append {α : Type*} {recvedLen : α → Option ℕ} (l k : List α) :
    recveds recvedLen (l ++ k) = recveds recvedLen l ++ recveds recvedLen k :=
  List.filterMap_append

/-- The calls of `tcp_recved` during one callback. -/
def recvedAll (a : Account) (lens : List ℕ) : Account :=
  lens.foldl (fun a len => ⟨tcpRecved a.credit len, a.taken, a.returned + len⟩) a

/-- One segment of data. It is delivered if it fits into the window. -/
def deliver (recv : Pbuf → List ℕ) (a : Account) (p : Pbuf) : Option Account :=
  if 0 < p.totLen ∧ p.totLen ≤ a.credit then some (recvedAll (a.take p.totLen) (recv p))
  else none

/-- The application has given everything back, and the peer may send. -/
structure WindowKept (a : Account) : Prop where
  returned_all : a.taken = a.returned
  full : a.credit = tcpWnd
  not_blocked : 0 < a.credit

theorem windowKept_opened : WindowKept (.opened tcpWnd) := ⟨rfl, rfl, by decide⟩

section Deliver

variable {recv : Pbuf → List ℕ} {a b : Account} {p : Pbuf} {es : List Pbuf}

theorem deliver_eq_some_iff : deliver recv a p = some b ↔
    (0 < p.totLen ∧ p.totLen ≤ a.credit) ∧ recvedAll (a.take p.totLen) (recv p) = b := by
  rw [deliver]
  split_ifs with h <;> simp [h]

/-- A closed window stays closed: nothing is delivered any more. -/
theorem deliver_of_closed (h : a.credit = 0) : deliver recv a p = none := by
  rw [deliver, if_neg (by omega)]

/-- Inside the window `tcp_recved` gives back what it is told. -/
theorem tcpRecved_eq {rcvWnd len : ℕ} (h : rcvWnd + len ≤ tcpWnd) :
    tcpRecved rcvWnd len = rcvWnd + len := by
  have hwnd : tcpWnd = 2920 := rfl
  have hmod : (rcvWnd + len) % 2 ^ 16 = rcvWnd + len := Nat.mod_eq_of_lt (by omega)
  rw [tcpRecved, hmod]
  exact if_neg (not_lt.mpr h)

/-! ### A callback that returns what it is given -/

theorem deliver_of_returns (hrecv : ∀ p, recv p = [p.totLen]) (h : WindowKept a)
    (hstep : deliver recv a p = some b) : WindowKept b := by
  obtain ⟨⟨_, hfits⟩, rfl⟩ := deliver_eq_some_iff.mp hstep
  have hback : recvedAll (a.take p.totLen) (recv p) = (a.take p.totLen).giveBack p.totLen := by
    have hfull := h.full
    rw [hrecv, recvedAll, List.foldl_cons, List.foldl_nil, tcpRecved_eq]
    · rfl
    · simp only [Account.take]
      omega
  rw [hback]
  refine ⟨?_, ?_, ?_⟩
  · exact congrArg (· + p.totLen) h.returned_all
  · exact (Nat.sub_add_cancel hfits).trans h.full
  · exact lt_of_lt_of_eq h.not_blocked (Nat.sub_add_cancel hfits).symm

theorem windowKept_of_returns (hrecv : ∀ p, recv p = [p.totLen])
    (hrun : run (deliver recv) (.opened tcpWnd) es = some a) : WindowKept a :=
  run_invariant (fun _ _ _ => deliver_of_returns hrecv) windowKept_opened hrun

/-! ### A callback that returns nothing -/

/-- What has been delivered is gone from the window. -/
structure Consumed (a : Account) : Prop where
  balanced : a.Balanced tcpWnd
  nothing_returned : a.returned = 0

theorem deliver_of_silent (hrecv : ∀ p, recv p = []) (h : Consumed a)
    (hstep : deliver recv a p = some b) : Consumed b ∧ b.taken = a.taken + p.totLen := by
  obtain ⟨⟨_, hfits⟩, rfl⟩ := deliver_eq_some_iff.mp hstep
  rw [hrecv]
  exact ⟨⟨h.balanced.take hfits, h.nothing_returned⟩, rfl⟩

theorem consumed_of_silent (hrecv : ∀ p, recv p = [])
    (hrun : run (deliver recv) (.opened tcpWnd) es = some a) : Consumed a :=
  run_invariant (fun _ _ _ h hstep => (deliver_of_silent hrecv h hstep).1)
    ⟨Account.balanced_opened tcpWnd, rfl⟩ hrun

/-- Such a connection carries no more than `TCP_WND` bytes in its whole life. -/
theorem taken_le_of_silent (hrecv : ∀ p, recv p = [])
    (hrun : run (deliver recv) (.opened tcpWnd) es = some a) : a.taken ≤ tcpWnd := by
  obtain ⟨hbalanced, hnone⟩ := consumed_of_silent hrecv hrun
  rw [Account.Balanced, hnone] at hbalanced
  omega

theorem windowKept_iff_of_silent (hrecv : ∀ p, recv p = [])
    (hrun : run (deliver recv) (.opened tcpWnd) es = some a) : WindowKept a ↔ es = [] := by
  constructor
  · intro hkept
    cases es with
    | nil => rfl
    | cons p es =>
      rw [run_cons, Option.bind_eq_some_iff] at hrun
      obtain ⟨b, hb, hrest⟩ := hrun
      have hdata : 0 < p.totLen := (deliver_eq_some_iff.mp hb).1.1
      have hfirst := deliver_of_silent hrecv ⟨Account.balanced_opened tcpWnd, rfl⟩ hb
      -- from the first segment on something is missing
      have hlost : Consumed a ∧ 0 < a.taken := by
        refine run_invariant (I := fun a => Consumed a ∧ 0 < a.taken) ?_ ?_ hrest
        · rintro s q t ⟨hs, hpos⟩ hstep
          obtain ⟨ht, htaken⟩ := deliver_of_silent hrecv hs hstep
          exact ⟨ht, by omega⟩
        · exact ⟨hfirst.1, by omega⟩
      have hall := hkept.returned_all
      rw [hlost.1.nothing_returned] at hall
      exact absurd hall hlost.2.ne'
  · rintro rfl
    simp only [run_nil, Option.some.injEq] at hrun
    exact hrun ▸ windowKept_opened

end Deliver

end EthMange
