import Mathlib.Tactic

/-!
# The pool of UDP control blocks

`udp_new` takes a control block from a pool of fixed size and returns `NULL`
when the pool is empty. A block is counted under what it was allocated for.
-/

namespace EthMange.Lwip

/-- `MEMP_NUM_UDP_PCB` -/
def mempNumUdpPcb : ℕ := 6

/-- The UDP control blocks in use, never more than the pool has. -/
structure UdpPool (υ : Type*) where
  users : List υ
  fits : users.length ≤ mempNumUdpPcb

namespace UdpPool

variable {υ : Type*}

def empty : UdpPool υ := ⟨[], Nat.zero_le _⟩

def udpNew (pool : UdpPool υ) (user : υ) : Option (UdpPool υ) :=
  if h : pool.users.length < mempNumUdpPcb then some ⟨user :: pool.users, h⟩ else none

def udpRemove [DecidableEq υ] (pool : UdpPool υ) (user : υ) : UdpPool υ :=
  ⟨pool.users.erase user, (List.length_erase_le).trans pool.fits⟩

@[simp] theorem empty_users : (empty : UdpPool υ).users = [] := rfl

@[simp] theorem udpRemove_users [DecidableEq υ] (pool : UdpPool υ) (user : υ) :
    (pool.udpRemove user).users = pool.users.erase user := rfl

theorem udpNew_eq_some {pool pool' : UdpPool υ} {user : υ} (h : pool.udpNew user = some pool') :
    pool'.users = user :: pool.users := by
  rw [udpNew] at h
  split_ifs at h
  · simp only [Option.some.injEq] at h
    rw [← h]

end UdpPool

end EthMange.Lwip
