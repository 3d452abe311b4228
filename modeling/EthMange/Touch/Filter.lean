import EthMange.Lib.Ranks

/-!
# The filter of the touch screen

`ADS7843_Rd_Addata` takes ten readings of either axis, means to sort them, and
returns the mean of the four in the middle. The inner loop of the sort starts at
`READ_TIMES` and so never runs: the four are those taken in the middle.
-/

namespace EthMange.Touch

open List (Perm)
open Ranks (sorted sorted_perm leastSum greatestSum)

/-- What one turn of the collecting loop sees: the pen line, and the bits that the
converter sends for either channel. -/
structure TouchInput where
  penDown : Bool
  x : Fin 12 → Bool
  y : Fin 12 → Bool

/-- The size of the screen that is compiled in. -/
inductive Screen
  | size32Inch
  | size28Inch
deriving DecidableEq

def readTimes : ℕ := 10

def validTimes : ℕ := (readTimes - 1) / 2 - 1

/-- One turn of the loop of `ADS7843_Read`. -/
def shiftIn (buf : UInt16) (miso : Bool) : UInt16 :=
  if miso then (buf <<< 1) + 1 else buf <<< 1

def ads7843Read (miso : Fin 12 → Bool) : UInt16 := (List.ofFn miso).foldl shiftIn 0

/-- The collecting loop, with the turn and how many are left. -/
def collect (input : ℕ → TouchInput) : ℕ → ℕ → List (UInt16 × UInt16)
  | _, 0 => []
  | i, left + 1 =>
    if (input i).penDown then
      (ads7843Read (input i).x, ads7843Read (input i).y) :: collect input (i + 1) left
    else []

/-- `for (j = start; j < stop; j++)`. -/
def forUp {σ : Type} (start stop : ℕ) (body : ℕ → σ → σ) (s : σ) : σ :=
  (List.range' start (stop - start)).foldl (fun s j => body j s) s

/-- The body of the sort. -/
def swapGreater (i j : ℕ) (a : List UInt16) : List UInt16 :=
  if a.getD j 0 > a.getD i 0 then (a.set j (a.getD i 0)).set i (a.getD j 0) else a

def filterSort (a : List UInt16) : List UInt16 :=
  forUp 0 readTimes
    (fun i a => forUp readTimes (readTimes - 1) (fun j a => swapGreater i j a) a) a

def validMean (a : List UInt16) : UInt16 :=
  UInt16.ofNat (((a.getD validTimes 0).toNat + (a.getD (validTimes + 1) 0).toNat +
    (a.getD (validTimes + 2) 0).toNat + (a.getD (validTimes + 3) 0).toNat) >>> 2)

/-- `ADS7843_Rd_Addata`: `none` when it returns 0, otherwise the two values. -/
def rdAddata (screen : Screen) (input : ℕ → TouchInput) : Option (UInt16 × UInt16) :=
  let taken := collect input 0 readTimes
  if taken.length = readTimes then
    let x := filterSort (taken.map Prod.fst)
    let y := filterSort (taken.map Prod.snd)
    some (validMean x,
      match screen with
      | .size28Inch => 4095 - validMean y
      | .size32Inch => validMean y)
  else none

/-! ### What the filter is for -/

/-- The samples that one channel sends. -/
def samples (channel : TouchInput → Fin 12 → Bool) (input : ℕ → TouchInput) : List ℕ :=
  (List.range readTimes).map fun i => (ads7843Read (channel (input i))).toNat

/-- The mean of four from the fourth on. -/
def middleMean (l : List ℕ) : ℕ := ((l.drop 3).take 4).sum / 4

/-- The mean of the ranks 3 to 6. -/
def rankMean (l : List ℕ) : ℕ := middleMean (sorted l)

/-- The value of an axis as it is returned. -/
def Screen.orient : Screen → ℕ → ℕ
  | .size28Inch, v => 4095 - v
  | .size32Inch, v => v

/-- The value is the mean of the middle ranks, and outliers, up to three at either
end, leave it in the range of the other samples. -/
structure Filtered (l : List ℕ) (v : ℕ) : Prop where
  mean : v = rankMean l
  inside : ∀ low others high : List ℕ, l.Perm (low ++ others ++ high) →
    low.length ≤ 3 → high.length ≤ 3 →
    (∀ a ∈ low, ∀ b ∈ others, a ≤ b) → (∀ b ∈ others, ∀ c ∈ high, b ≤ c) →
    ∃ a ∈ others, ∃ b ∈ others, a ≤ v ∧ v ≤ b

/-- With the pen down throughout, the filter returns what it should of these samples,
in whatever order they are taken. -/
def FiltersInAnyOrder (screen : Screen) (xs ys : List ℕ) : Prop :=
  ∀ input : ℕ → TouchInput, (∀ i < readTimes, (input i).penDown = true) →
    (samples TouchInput.x input).Perm xs → (samples TouchInput.y input).Perm ys →
    ∃ x y, rdAddata screen input = some (x, y) ∧ Filtered xs x.toNat ∧
      ∃ v, y.toNat = screen.orient v ∧ Filtered ys v

/-- The four least and the four greatest have the same mean, rounded down. -/
def Close (l : List ℕ) : Prop := leastSum 4 l / 4 = greatestSum 4 l / 4

instance (l : List ℕ) : Decidable (Close l) :=
  inferInstanceAs (Decidable (leastSum 4 l / 4 = greatestSum 4 l / 4))

/-! ### What the code returns -/

theorem shiftIn_toNat {buf : UInt16} (h : buf.toNat < 2 ^ 15) (miso : Bool) :
    (shiftIn buf miso).toNat = 2 * buf.toNat + miso.toNat := by
  have hshift : (buf <<< 1).toNat = 2 * buf.toNat := by
    rw [UInt16.toNat_shiftLeft, show (1 : UInt16).toNat % 16 = 1 from rfl, Nat.shiftLeft_eq]
    omega
  cases miso with
  | false =>
    show (buf <<< 1).toNat = _
    simpa using hshift
  | true =>
    show ((buf <<< 1) + 1).toNat = _
    rw [UInt16.toNat_add, hshift, UInt16.toNat_one, Bool.toNat_true]
    omega

/-- The bits of a number, the first the most significant. -/
def bitsOf (n v : ℕ) : Fin n → Bool := fun i => v.testBit (n - 1 - i)

theorem shiftIn_bitsOf {n : ℕ} (hn : n ≤ 16) (v : ℕ) :
    ((List.ofFn (bitsOf n v)).foldl shiftIn 0).toNat = v % 2 ^ n := by
  induction n generalizing v with
  | zero => simp [Nat.mod_one]
  | succ n ih =>
    have hinit : (fun i : Fin n => bitsOf (n + 1) v i.castSucc) = bitsOf n (v / 2) := by
      funext i
      have hi : n + 1 - 1 - (i.castSucc : ℕ) = (n - 1 - i) + 1 := by
        have := i.isLt
        simp only [Fin.val_castSucc]
        omega
      rw [bitsOf, hi, Nat.testBit_succ]
      rfl
    have hlast : (bitsOf (n + 1) v (Fin.last n)).toNat = v % 2 := by
      rw [bitsOf, Fin.val_last, Nat.add_sub_cancel, Nat.sub_self, Nat.testBit_zero]
      obtain h | h := Nat.mod_two_eq_zero_or_one v <;> simp [h]
    have hbound : (v / 2) % 2 ^ n < 2 ^ 15 :=
      lt_of_lt_of_le (Nat.mod_lt _ (by positivity)) (Nat.pow_le_pow_right (by omega) (by omega))
    have hrest := ih (by omega) (v / 2)
    rw [List.ofFn_succ', List.concat_eq_append, List.foldl_append, hinit, List.foldl_cons,
      List.foldl_nil, shiftIn_toNat (by rw [hrest]; exact hbound), hrest, hlast,
      Nat.pow_succ', Nat.mod_mul]
    ring

theorem collect_eq {input : ℕ → TouchInput} (left i : ℕ)
    (h : ∀ k < left, (input (i + k)).penDown = true) :
    collect input i left = (List.range' i left).map fun k =>
      (ads7843Read (input k).x, ads7843Read (input k).y) := by
  induction left generalizing i with
  | zero => rfl
  | succ left ih =>
    have hrest := ih (i + 1) fun k hk => by
      rw [Nat.add_assoc, Nat.add_comm 1]
      exact h (k + 1) (by omega)
    have hpen : (input i).penDown = true := h 0 (by omega)
    rw [collect, if_pos hpen, hrest, List.range'_succ, List.map_cons]

/-- No turn of the inner loop is made. -/
theorem filterSort_eq (a : List UInt16) : filterSort a = a := by
  have hinner : ∀ (i : ℕ) (a : List UInt16),
      forUp readTimes (readTimes - 1) (fun j a => swapGreater i j a) a = a := fun _ _ => rfl
  have houter : ∀ (l : List ℕ) (a : List UInt16), l.foldl (fun s i =>
      forUp readTimes (readTimes - 1) (fun j a => swapGreater i j a) s) a = a := by
    intro l
    induction l with
    | nil => exact fun _ => rfl
    | cons i l ih =>
      intro a
      rw [List.foldl_cons, hinner, ih]
  exact houter _ a

theorem middleMean_ten (a0 a1 a2 a3 a4 a5 a6 a7 a8 a9 : ℕ) :
    middleMean [a0, a1, a2, a3, a4, a5, a6, a7, a8, a9] = (a3 + a4 + a5 + a6) / 4 := by
  rw [middleMean, List.drop_succ_cons, List.drop_succ_cons, List.drop_succ_cons, List.drop_zero]
  simp only [List.take_succ_cons, List.take_zero, List.sum_cons, List.sum_nil]
  congr 1
  omega

theorem validMean_toNat {a : List UInt16} (h : a.length = readTimes) :
    (validMean a).toNat = middleMean (a.map UInt16.toNat) := by
  match a, h with
  | [a0, a1, a2, a3, a4, a5, a6, a7, a8, a9], _ =>
    have hsum : a3.toNat + a4.toNat + a5.toNat + a6.toNat < 2 ^ 18 := by
      have := a3.toNat_lt
      have := a4.toNat_lt
      have := a5.toNat_lt
      have := a6.toNat_lt
      omega
    simp only [List.map_cons, List.map_nil, middleMean_ten]
    show (UInt16.ofNat ((a3.toNat + a4.toNat + a5.toNat + a6.toNat) >>> 2)).toNat = _
    rw [UInt16.toNat_ofNat', Nat.shiftRight_eq_div_pow]
    omega

theorem middleMean_le {l : List ℕ} {b : ℕ} (h : ∀ v ∈ l, v ≤ b) : middleMean l ≤ b := by
  have hmem : ∀ v ∈ (l.drop 3).take 4, v ≤ b := fun v hv =>
    h v (List.mem_of_mem_drop (List.mem_of_mem_take hv))
  have hsum := List.sum_le_card_nsmul _ b hmem
  have hlength : ((l.drop 3).take 4).length ≤ 4 := List.length_take_le 4 _
  have hbound : ((l.drop 3).take 4).sum ≤ 4 * b :=
    hsum.trans (Nat.mul_le_mul_right b hlength)
  rw [middleMean]
  omega

@[simp] theorem length_samples (channel : TouchInput → Fin 12 → Bool) (input : ℕ → TouchInput) :
    (samples channel input).length = readTimes := by
  simp [samples]

/-- The means of the four readings taken in the middle. -/
theorem rdAddata_spec (screen : Screen) {input : ℕ → TouchInput}
    (hpen : ∀ i < readTimes, (input i).penDown = true)
    (hy : ∀ v ∈ samples TouchInput.y input, v < 4096) :
    ∃ x y, rdAddata screen input = some (x, y) ∧
      x.toNat = middleMean (samples TouchInput.x input) ∧
      y.toNat = screen.orient (middleMean (samples TouchInput.y input)) := by
  have htaken := collect_eq readTimes 0 fun k hk => by
    rw [Nat.zero_add]
    exact hpen k hk
  have hlength : (collect input 0 readTimes).length = readTimes := by rw [htaken]; simp
  have hmap : ∀ f : UInt16 × UInt16 → UInt16, ((collect input 0 readTimes).map f).length =
      readTimes := fun f => by rw [List.length_map, hlength]
  have hx' : ((collect input 0 readTimes).map Prod.fst).map UInt16.toNat =
      samples TouchInput.x input := by
    rw [htaken, List.map_map, List.map_map, samples, List.range_eq_range']
    rfl
  have hy' : ((collect input 0 readTimes).map Prod.snd).map UInt16.toNat =
      samples TouchInput.y input := by
    rw [htaken, List.map_map, List.map_map, samples, List.range_eq_range']
    rfl
  have hxmean := validMean_toNat (hmap Prod.fst)
  have hymean := validMean_toNat (hmap Prod.snd)
  rw [hx'] at hxmean
  rw [hy'] at hymean
  simp only [rdAddata, hlength, if_true, filterSort_eq]
  refine ⟨_, _, rfl, hxmean, ?_⟩
  cases screen with
  | size32Inch => exact hymean
  | size28Inch =>
    have hle : middleMean (samples TouchInput.y input) ≤ 4095 :=
      middleMean_le fun v hv => Nat.le_of_lt_succ (hy v hv)
    show ((4095 : UInt16) - validMean _).toNat = 4095 - _
    rw [UInt16.toNat_sub_of_le, hymean]
    · rfl
    · rw [UInt16.le_iff_toNat_le, hymean]
      exact hle

/-! ### When that is the mean of the middle ranks -/

theorem rankMean_between {l : List ℕ} (h : l.length = readTimes) :
    ∃ a b, (sorted l)[3]? = some a ∧ (sorted l)[6]? = some b ∧
      a ≤ rankMean l ∧ rankMean l ≤ b := by
  rw [rankMean]
  have hsorted := (Ranks.sortedLE_sorted l).pairwise
  have hlength : (sorted l).length = readTimes := by rw [Ranks.length_sorted, h]
  match hl : sorted l, hlength with
  | [a0, a1, a2, a3, a4, a5, a6, a7, a8, a9], _ =>
    rw [hl] at hsorted
    refine ⟨a3, a6, rfl, rfl, ?_⟩
    obtain ⟨-, -, -, h3, h4, h5, -⟩ := by
      simpa only [List.pairwise_cons, List.forall_mem_cons] using hsorted
    rw [middleMean_ten]
    omega

/-- The mean of the middle ranks is where it should be. -/
theorem filtered_iff {l : List ℕ} (h : l.length = readTimes) (v : ℕ) :
    Filtered l v ↔ v = rankMean l := by
  refine ⟨Filtered.mean, ?_⟩
  rintro rfl
  refine ⟨rfl, fun low others high hsplit hlow hhigh hbelow habove => ?_⟩
  rw [readTimes] at h
  obtain ⟨a, ha, ha3⟩ := Ranks.between_of_outliers hsplit hbelow habove hlow (by omega)
  obtain ⟨b, hb, hb6⟩ :=
    Ranks.between_of_outliers hsplit hbelow habove (i := 6) (by omega) (by omega)
  obtain ⟨a', b', ha', hb', hle, hle'⟩ := rankMean_between h
  rw [ha3] at ha'
  rw [hb6] at hb'
  obtain rfl := Option.some.inj ha'
  obtain rfl := Option.some.inj hb'
  exact ⟨a, ha, b, hb, hle, hle'⟩

section Orders

variable {l : List ℕ}

/-- The four in the middle sum to no less than the least four and no more than the
greatest. -/
theorem middle_bounds {p : List ℕ} (h : l.length = readTimes) (hp : p.Perm l) :
    leastSum 4 l / 4 ≤ middleMean p ∧ middleMean p ≤ greatestSum 4 l / 4 := by
  have hsub : ((p.drop 3).take 4).Subperm l :=
    ((List.take_sublist _ _).trans (List.drop_sublist _ _)).subperm.trans hp.subperm
  have hlength : ((p.drop 3).take 4).length = 4 := by
    rw [List.length_take, List.length_drop, hp.length_eq, h]
    rfl
  have hleast := Ranks.leastSum_le hsub
  have hgreatest := Ranks.le_greatestSum hsub
  rw [hlength] at hleast hgreatest
  exact ⟨Nat.div_le_div_right hleast, Nat.div_le_div_right hgreatest⟩

theorem middleMean_of_close (h : l.length = readTimes) (hclose : Close l) {p : List ℕ}
    (hp : p.Perm l) : middleMean p = rankMean l := by
  have hmiddle := middle_bounds h hp
  have hrank := middle_bounds h (sorted_perm l)
  rw [Close] at hclose
  rw [rankMean]
  omega

/-- Any four can be those taken in the middle. -/
theorem exists_order {u v : List ℕ} (hu : u.length = 4) (hv : 3 ≤ v.length)
    (hsplit : (u ++ v).Perm l) : ∃ p, p.Perm l ∧ middleMean p = u.sum / 4 := by
  have hfirst : (v.take 3).length = 3 := List.length_take_of_le hv
  refine ⟨v.take 3 ++ (u ++ v.drop 3), List.Perm.trans ?_ hsplit, ?_⟩
  · have hswap : (v.take 3 ++ (u ++ v.drop 3)).Perm (u ++ (v.take 3 ++ v.drop 3)) := by
      rw [← List.append_assoc, ← List.append_assoc]
      exact List.perm_append_comm.append_right _
    rwa [List.take_append_drop] at hswap
  · rw [middleMean, List.drop_left' hfirst, List.take_left' hu]

theorem close_of_middleMean (h : l.length = readTimes)
    (hmean : ∀ p : List ℕ, p.Perm l → middleMean p = rankMean l) : Close l := by
  have hlength : (sorted l).length = 10 := by rw [Ranks.length_sorted, h, readTimes]
  have hleast : ((sorted l).take 4 ++ (sorted l).drop 4).Perm l := by
    rw [List.take_append_drop]
    exact sorted_perm l
  have hgreatest : ((sorted l).drop 6 ++ (sorted l).take 6).Perm l := by
    apply List.perm_append_comm.trans
    rw [List.take_append_drop]
    exact sorted_perm l
  obtain ⟨p, hp, hpmean⟩ := exists_order (by simp [hlength]) (by simp [hlength]) hleast
  obtain ⟨q, hq, hqmean⟩ := exists_order (by simp [hlength]) (by simp [hlength]) hgreatest
  have hsame := (hmean p hp).trans (hmean q hq).symm
  rw [hpmean, hqmean] at hsame
  rw [Close, leastSum, greatestSum, h]
  exact hsame

end Orders

/-- The pen down, and these samples sent one after the other. -/
def inputOf (xs ys : List ℕ) : ℕ → TouchInput :=
  fun i => ⟨true, bitsOf 12 (xs.getD i 0), bitsOf 12 (ys.getD i 0)⟩

theorem samples_of_bits {channel : TouchInput → Fin 12 → Bool} {input : ℕ → TouchInput}
    {l : List ℕ} (hchannel : ∀ i, channel (input i) = bitsOf 12 (l.getD i 0))
    (hlength : l.length = readTimes) (hbound : ∀ v ∈ l, v < 4096) : samples channel input = l := by
  apply List.ext_getElem
  · rw [length_samples, hlength]
  · intro i hi hi'
    have hv : l[i] < 2 ^ 12 := hbound _ (List.getElem_mem hi')
    simp only [samples, List.getElem_map, List.getElem_range, hchannel]
    rw [ads7843Read, shiftIn_bitsOf (by omega), List.getD_eq_getElem?_getD,
      List.getElem?_eq_getElem hi', Option.getD_some, Nat.mod_eq_of_lt hv]

theorem samples_inputOf {xs ys : List ℕ} (hxs : xs.length = readTimes)
    (hys : ys.length = readTimes) (hx : ∀ v ∈ xs, v < 4096) (hy : ∀ v ∈ ys, v < 4096) :
    samples TouchInput.x (inputOf xs ys) = xs ∧ samples TouchInput.y (inputOf xs ys) = ys :=
  ⟨samples_of_bits (fun _ => rfl) hxs hx, samples_of_bits (fun _ => rfl) hys hy⟩

theorem orient_inj (screen : Screen) {v w : ℕ} (hv : v < 4096) (hw : w < 4096)
    (h : screen.orient v = screen.orient w) : v = w := by
  cases screen with
  | size32Inch => exact h
  | size28Inch =>
    have h' : 4095 - v = 4095 - w := h
    omega

section Converse

variable {screen : Screen} {xs ys : List ℕ}

/-- What a filter that works in any order says of one order. -/
theorem FiltersInAnyOrder.order (h : FiltersInAnyOrder screen xs ys)
    (hxs : xs.length = readTimes) (hys : ys.length = readTimes) (hx : ∀ v ∈ xs, v < 4096)
    (hy : ∀ v ∈ ys, v < 4096) {p q : List ℕ} (hp : p.Perm xs) (hq : q.Perm ys) :
    middleMean p = rankMean xs ∧ middleMean q = rankMean ys := by
  have hpx : ∀ v ∈ p, v < 4096 := fun v hv => hx v (hp.mem_iff.mp hv)
  have hqy : ∀ v ∈ q, v < 4096 := fun v hv => hy v (hq.mem_iff.mp hv)
  obtain ⟨hxsent, hysent⟩ := samples_inputOf (hp.length_eq.trans hxs) (hq.length_eq.trans hys)
    hpx hqy
  have hpen : ∀ i < readTimes, (inputOf p q i).penDown = true := fun _ _ => rfl
  obtain ⟨x, y, hrun, hxf, v, hyv, hyf⟩ := h _ hpen (hxsent.symm ▸ hp) (hysent.symm ▸ hq)
  obtain ⟨x', y', hrun', hx', hy'⟩ := rdAddata_spec screen hpen (hysent.symm ▸ hqy)
  obtain ⟨rfl, rfl⟩ := Prod.mk.inj (Option.some.inj (hrun.symm.trans hrun'))
  rw [hxsent] at hx'
  rw [hysent] at hy'
  refine ⟨hx'.symm.trans hxf.mean, orient_inj screen ?_ ?_ ?_⟩
  · exact Nat.lt_succ_of_le (middleMean_le fun w hw => Nat.le_of_lt_succ (hqy w hw))
  · refine Nat.lt_succ_of_le (middleMean_le fun w hw => Nat.le_of_lt_succ (hy w ?_))
    exact (sorted_perm ys).mem_iff.mp hw
  · rw [← hy', hyv, hyf.mean]

end Converse

/-- Ten samples of either axis are filtered as they should be, in whatever order they
are taken, when the least four and the greatest four have the same mean, rounded down. -/
theorem rdAddata_filters_iff (screen : Screen) {xs ys : List ℕ} (hxs : xs.length = readTimes)
    (hys : ys.length = readTimes) (hx : ∀ v ∈ xs, v < 4096) (hy : ∀ v ∈ ys, v < 4096) :
    FiltersInAnyOrder screen xs ys ↔ Close xs ∧ Close ys := by
  constructor
  · intro h
    refine ⟨close_of_middleMean hxs fun p hp => ?_, close_of_middleMean hys fun q hq => ?_⟩
    · exact (h.order hxs hys hx hy hp (List.Perm.refl ys)).1
    · exact (h.order hxs hys hx hy (List.Perm.refl xs) hq).2
  · rintro ⟨hcx, hcy⟩ input hpen hpx hpy
    have hle : ∀ v ∈ samples TouchInput.y input, v < 4096 := fun v hv =>
      hy v (hpy.mem_iff.mp hv)
    obtain ⟨x, y, hrun, hxv, hyv⟩ := rdAddata_spec screen hpen hle
    refine ⟨x, y, hrun, (filtered_iff hxs _).mpr ?_, rankMean ys, ?_, (filtered_iff hys _).mpr rfl⟩
    · rw [hxv, middleMean_of_close hxs hcx hpx]
    · rw [hyv, middleMean_of_close hys hcy hpy]

/-- Readings that stay within one unit. -/
theorem rdAddata_filters_steady :
    FiltersInAnyOrder .size28Inch [2001, 2000, 2000, 2001, 2000, 2001, 2000, 2000, 2000, 2000]
      [100, 100, 100, 100, 100, 100, 100, 100, 100, 100] :=
  (rdAddata_filters_iff .size28Inch (by decide) (by decide) (by decide) (by decide)).mpr
    ⟨by decide, by decide⟩

/-- One reading of 4095 among zeros, taken fourth, moves the result to 1023. -/
theorem rdAddata_unsorted :
    ¬ FiltersInAnyOrder .size32Inch [0, 0, 0, 4095, 0, 0, 0, 0, 0, 0]
      [0, 0, 0, 0, 0, 0, 0, 0, 0, 0] := by
  intro h
  obtain ⟨x, y, hrun, hx, -⟩ := h
    (inputOf [0, 0, 0, 4095, 0, 0, 0, 0, 0, 0] [0, 0, 0, 0, 0, 0, 0, 0, 0, 0])
    (fun _ _ => rfl) (by decide) (by decide)
  have hreturned : rdAddata .size32Inch
      (inputOf [0, 0, 0, 4095, 0, 0, 0, 0, 0, 0] [0, 0, 0, 0, 0, 0, 0, 0, 0, 0]) =
      some (1023, 0) := by decide
  obtain ⟨rfl, -⟩ := Prod.mk.inj (Option.some.inj (hrun.symm.trans hreturned))
  have hmean : rankMean [0, 0, 0, 4095, 0, 0, 0, 0, 0, 0] = 0 := by decide
  have hzero := hx.mean.trans hmean
  simp at hzero

end EthMange.Touch
