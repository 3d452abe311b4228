import Mathlib.Tactic

/-!
# Credit

A sender may send as much as it has credit for. What it sends takes credit away
and what the receiver gives back restores it. While no credit is lost on the
way, the credit and what is outstanding add up to the initial credit.
-/

namespace EthMange.Credit

/-- The credit that is left, and how much has been taken and given back. -/
structure Account where
  credit : ℕ
  taken : ℕ
  returned : ℕ
  deriving DecidableEq, Repr

namespace Account

def opened (cap : ℕ) : Account := ⟨cap, 0, 0⟩

def take (a : Account) (n : ℕ) : Account := ⟨a.credit - n, a.taken + n, a.returned⟩

def giveBack (a : Account) (n : ℕ) : Account := ⟨a.credit + n, a.taken, a.returned + n⟩

/-- No credit is lost or made. -/
def Balanced (cap : ℕ) (a : Account) : Prop := a.credit + a.taken = cap + a.returned

variable {cap n : ℕ} {a : Account}

theorem balanced_opened (cap : ℕ) : (opened cap).Balanced cap := rfl

theorem Balanced.take (h : a.Balanced cap) (hn : n ≤ a.credit) : (a.take n).Balanced cap := by
  simp only [Balanced, Account.take] at h ⊢
  omega

theorem Balanced.giveBack (h : a.Balanced cap) : (a.giveBack n).Balanced cap := by
  simp only [Balanced, Account.giveBack] at h ⊢
  omega

end Account

end EthMange.Credit
