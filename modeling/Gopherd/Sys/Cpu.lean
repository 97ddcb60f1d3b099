import Gopherd.Go.Bytes
import Gopherd.Go.Strings

/-!
The CPU limits of a control group: the number of CPUs a CPU list names, and the
quota of the hierarchy of version 1. The files of a hierarchy may hold any bytes.
-/

namespace Gopherd.Cpu

open Go

/-- `strconv.Atoi` of a byte string. A sign or a digit is one byte. -/
def atoiBytes (s : Bytes) : Option Int :=
  atoi (String.ofList (s.map fun b => Char.ofNat b.toNat))

/-- The greatest count, for the number of CPUs of the machine. -/
def maxCPUCount (numCPU : Int) : Int :=
  Int.bmod (numCPU * 64) (2 ^ 64)

def cutHyphen (s : Bytes) : Option (Bytes × Bytes) :=
  if hyphen ∈ s then some (s.takeWhile (· ≠ hyphen), (s.dropWhile (· ≠ hyphen)).tail) else none

/-- The loop of `parseCPUList` over the parts of the list. -/
def countParts (maxCount : Int) : Int → List Bytes → Int
  | count, [] => count
  | count, part :: parts =>
    let part := trimSpaces part
    if part = [] then countParts maxCount count parts
    else
      match cutHyphen part with
      | some (lo, hi) =>
        match atoiBytes lo, atoiBytes hi with
        | some loN, some hiN =>
          if hiN < loN then countParts maxCount count parts
          else
            let count := addInt count (addInt (addInt hiN (-loN)) 1)
            if maxCount ≤ count then maxCount else countParts maxCount count parts
        | _, _ => countParts maxCount count parts
      | none =>
        match atoiBytes part with
        | none => countParts maxCount count parts
        | some _ =>
          let count := addInt count 1
          if maxCount ≤ count then maxCount else countParts maxCount count parts

def parseCPUList (numCPU : Int) (data : Bytes) : Int :=
  let s := trimSpaces data
  if s = [] then 0 else countParts (maxCPUCount numCPU) 0 (s.splitOn comma)

/-- The size of a well-formed part, without a bound on the integers. -/
def partSize (part : Bytes) : Option Int :=
  match cutHyphen (trimSpaces part) with
  | some (lo, hi) =>
    match atoiBytes lo, atoiBytes hi with
    | some loN, some hiN => if hiN < loN then none else some (hiN - loN + 1)
    | _, _ => none
  | none => (atoiBytes (trimSpaces part)).map fun _ => 1

/-- The sizes of the well-formed parts of a CPU list. -/
def partSizes (data : Bytes) : List Int :=
  ((trimSpaces data).splitOn comma).filterMap partSize

/-- The loop of `parseCPUList` over the sizes of the well-formed parts. -/
def countSizes (maxCount : Int) : Int → List Int → Int
  | count, [] => count
  | count, size :: sizes =>
    if maxCount ≤ addInt count size then maxCount
    else countSizes maxCount (addInt count size) sizes

theorem partSize_blank (h : trimSpaces part = []) : partSize part = none := by
  unfold partSize
  rw [h]
  decide

theorem partSize_pos (h : partSize part = some size) : 0 < size := by
  unfold partSize at h
  split at h
  · split at h
    · split_ifs at h with hlt
      obtain rfl := Option.some_inj.mp h
      omega
    · cases h
  · obtain ⟨n, -, rfl⟩ := Option.map_eq_some_iff.mp h
    exact Int.one_pos

theorem addInt_size (count hi lo : Int) :
    addInt count (addInt (addInt hi (-lo)) 1) = addInt count (hi - lo + 1) := by
  unfold addInt
  rw [Int.bmod_add_bmod, Int.add_bmod_bmod, Int.sub_eq_add_neg]

/-- A part that is not well-formed is passed over, any other one adds its size. -/
theorem countParts_eq (maxCount count : Int) (parts : List Bytes) :
    countParts maxCount count parts = countSizes maxCount count (parts.filterMap partSize) := by
  induction parts generalizing count with
  | nil => rfl
  | cons part parts ih =>
    by_cases hblank : trimSpaces part = []
    · rw [List.filterMap_cons_none (partSize_blank hblank), ← ih]
      simp [countParts, hblank]
    · cases hcut : cutHyphen (trimSpaces part) with
      | none =>
        cases hn : atoiBytes (trimSpaces part) with
        | none => simp [countParts, partSize, hblank, hcut, hn, ih]
        | some n => simp [countParts, partSize, countSizes, hblank, hcut, hn, ih]
      | some ends =>
        obtain ⟨lo, hi⟩ := ends
        cases hlo : atoiBytes lo with
        | none => simp [countParts, partSize, hblank, hcut, hlo, ih]
        | some loN =>
          cases hhi : atoiBytes hi with
          | none => simp [countParts, partSize, hblank, hcut, hlo, hhi, ih]
          | some hiN =>
            by_cases hlt : hiN < loN
            · simp [countParts, partSize, hblank, hcut, hlo, hhi, hlt, ih]
            · simp [countParts, partSize, countSizes, hblank, hcut, hlo, hhi, hlt, addInt_size, ih]

theorem parseCPUList_eq (numCPU : Int) (data : Bytes) :
    parseCPUList numCPU data = countSizes (maxCPUCount numCPU) 0 (partSizes data) := by
  unfold parseCPUList
  simp only
  split_ifs with h
  · have hnone : partSize [] = none := by decide
    rw [partSizes, h, List.splitOn_nil, List.filterMap_cons_none hnone]
    rfl
  · exact countParts_eq _ _ _

section Counter

variable {maxCount sum : Int} {sizes : List Int}

theorem addInt_bmod (a b : Int) : addInt (Int.bmod a (2 ^ 64)) b = Int.bmod (a + b) (2 ^ 64) :=
  Int.bmod_add_bmod

/-- The counter is the sum of the sizes as a 64-bit integer, for as long as that is
below the greatest count. -/
theorem countSizes_below
    (h : ∀ n, Int.bmod (sum + (sizes.take n).sum) (2 ^ 64) < maxCount) :
    countSizes maxCount (Int.bmod sum (2 ^ 64)) sizes = Int.bmod (sum + sizes.sum) (2 ^ 64) := by
  induction sizes generalizing sum with
  | nil => simp [countSizes]
  | cons size sizes ih =>
    have hfirst : Int.bmod (sum + size) (2 ^ 64) < maxCount := by simpa using h 1
    rw [countSizes, addInt_bmod, if_neg (Int.not_le.mpr hfirst), ih, List.sum_cons, Int.add_assoc]
    intro n
    simpa [Int.add_assoc] using h (n + 1)

theorem countSizes_reached (hsum : Int.bmod sum (2 ^ 64) < maxCount)
    (h : maxCount ≤ Int.bmod (sum + (sizes.take n).sum) (2 ^ 64)) :
    countSizes maxCount (Int.bmod sum (2 ^ 64)) sizes = maxCount := by
  induction sizes generalizing sum n with
  | nil =>
    rw [List.take_nil, List.sum_nil, Int.add_zero] at h
    omega
  | cons size sizes ih =>
    cases n with
    | zero =>
      rw [List.take_zero, List.sum_nil, Int.add_zero] at h
      omega
    | succ n =>
      rw [List.take_succ_cons, List.sum_cons, ← Int.add_assoc] at h
      rw [countSizes, addInt_bmod]
      split_ifs with hle
      · rfl
      · exact ih (Int.not_le.mp hle) h

theorem le_bmod_iff (hpos : 0 < maxCount) :
    maxCount ≤ Int.bmod sum (2 ^ 64) ↔ maxCount ≤ sum % 2 ^ 64 ∧ sum % 2 ^ 64 < 2 ^ 63 := by
  rw [Int.bmod_def]
  norm_num
  omega

end Counter

theorem partSizes_nonneg : ∀ size ∈ partSizes data, 0 ≤ size := by
  intro size hsize
  obtain ⟨part, -, hpart⟩ := List.mem_filterMap.mp hsize
  exact (partSize_pos hpart).le

theorem sum_take_bounds (data : Bytes) (n : Nat) :
    0 ≤ ((partSizes data).take n).sum ∧
      ((partSizes data).take n).sum ≤ (partSizes data).sum := by
  have hfirst : 0 ≤ ((partSizes data).take n).sum :=
    List.sum_nonneg fun size hsize => partSizes_nonneg size (List.mem_of_mem_take hsize)
  have hrest : 0 ≤ ((partSizes data).drop n).sum :=
    List.sum_nonneg fun size hsize => partSizes_nonneg size (List.mem_of_mem_drop hsize)
  have hsplit := List.sum_take_add_sum_drop (partSizes data) n
  omega

/-- The list names fewer CPUs than the greatest count, or its first parts have a sum
that leaves, divided by `2 ^ 64`, a positive 64-bit integer of at least that count. -/
def CountFits (numCPU : Int) (data : Bytes) : Prop :=
  (partSizes data).sum < maxCPUCount numCPU ∨
    ∃ n, maxCPUCount numCPU ≤ ((partSizes data).take n).sum % 2 ^ 64 ∧
      ((partSizes data).take n).sum % 2 ^ 64 < 2 ^ 63

/-- The count is the number of CPUs in the list, up to the greatest count, unless the
sum of the sizes leaves the 64-bit integers before it is compared. -/
theorem parseCPUList_exact_iff {numCPU : Int} (hpos : 0 < maxCPUCount numCPU) (data : Bytes) :
    (0 ≤ parseCPUList numCPU data ∧ parseCPUList numCPU data ≤ maxCPUCount numCPU ∧
      parseCPUList numCPU data = min (maxCPUCount numCPU) (partSizes data).sum) ↔
      CountFits numCPU data := by
  have hzero : Int.bmod 0 (2 ^ 64) = 0 := by decide
  have hmax : maxCPUCount numCPU < 2 ^ 63 := Int.bmod_lt (by decide)
  have hcount := parseCPUList_eq numCPU data
  rw [← hzero] at hcount
  by_cases hreached : ∃ n, maxCPUCount numCPU ≤ Int.bmod ((partSizes data).take n).sum (2 ^ 64)
  · obtain ⟨n, hn⟩ := hreached
    have hfull : parseCPUList numCPU data = maxCPUCount numCPU := by
      rw [hcount]
      exact countSizes_reached (hzero ▸ hpos) (n := n) (by rwa [Int.zero_add])
    have hrest := (le_bmod_iff hpos).mp hn
    have htotal : maxCPUCount numCPU ≤ (partSizes data).sum := by
      have hbounds := sum_take_bounds data n
      omega
    rw [hfull, min_eq_left htotal]
    exact ⟨fun _ => Or.inr ⟨n, hrest⟩, fun _ => ⟨hpos.le, le_rfl, rfl⟩⟩
  · have hbelow : ∀ n, Int.bmod ((partSizes data).take n).sum (2 ^ 64) < maxCPUCount numCPU :=
      fun n => Int.not_le.mp fun h => hreached ⟨n, h⟩
    have hsum : parseCPUList numCPU data = Int.bmod (partSizes data).sum (2 ^ 64) := by
      rw [hcount, countSizes_below (fun n => (Int.zero_add _).symm ▸ hbelow n), Int.zero_add]
    constructor
    · rintro ⟨-, -, hmin⟩
      refine Or.inl (Int.not_le.mp fun hle => ?_)
      have hlast := hbelow (partSizes data).length
      rw [List.take_length, ← hsum, hmin, min_eq_left hle] at hlast
      omega
    · rintro (hlt | ⟨n, hn⟩)
      · have hbounds := sum_take_bounds data 0
        have hexact : Int.bmod (partSizes data).sum (2 ^ 64) = (partSizes data).sum := by
          apply Int.bmod_eq_of_le <;> norm_num <;> omega
        rw [hsum, hexact, min_eq_right hlt.le]
        exact ⟨by omega, hlt.le, rfl⟩
      · exact (hreached ⟨n, (le_bmod_iff hpos).mpr hn⟩).elim

/-- A list of two CPUs and a range. -/
theorem parseCPUList_exact_ranges :
    0 < maxCPUCount 4 ∧ parseCPUList 4 (ascii "0-3, 5,7\n") =
      min (maxCPUCount 4) (partSizes (ascii "0-3, 5,7\n")).sum :=
  ⟨by decide, ((parseCPUList_exact_iff (by decide) (ascii "0-3, 5,7\n")).mpr
    (Or.inl (by decide +kernel))).2.2⟩

/-- The range of all the numbers a 64-bit integer can hold has a negative count. -/
theorem parseCPUList_wraps :
    parseCPUList 4 (ascii "0-9223372036854775807\n") = minInt ∧
      partSizes (ascii "0-9223372036854775807\n") = [2 ^ 63] := by
  decide +kernel

/-- The files of a hierarchy. A control group is given by the names from it up to the
root; a file that cannot be read is `none`. -/
abbrev Tree := List String → String → Option Bytes

def maxCgroupFileSize : Nat := 64 * 1024

def readRootFile (tree : Tree) (rel : List String) (filename : String) : Option Bytes :=
  (tree rel filename).map (·.take maxCgroupFileSize)

def limitAt (tree : Tree) (filename : String) (parse : Bytes → Int) (rel : List String) : Int :=
  (readRootFile tree rel filename).elim 0 parse

/-- `WalkUpLimit`: the first positive value on the way up. -/
def walkUpLimit (tree : Tree) (filename : String) (parse : Bytes → Int) : List String → Int
  | [] => if 0 < limitAt tree filename parse [] then limitAt tree filename parse [] else 0
  | name :: parent =>
    if 0 < limitAt tree filename parse (name :: parent) then
      limitAt tree filename parse (name :: parent)
    else walkUpLimit tree filename parse parent

def parseV1Int (data : Bytes) : Int :=
  match atoiBytes (trimSpaces data) with
  | some v => if v ≤ 0 then 0 else v
  | none => 0

def quotaFile : String := "cpu.cfs_quota_us"
def periodFile : String := "cpu.cfs_period_us"

def v1CFSFromRoot (tree : Tree) (cgPath : List String) : Int :=
  let quota := walkUpLimit tree quotaFile parseV1Int cgPath
  if quota ≤ 0 then 0
  else
    let period := walkUpLimit tree periodFile parseV1Int cgPath
    if period ≤ 0 then 0
    else (addInt (addInt quota period) (-1)).tdiv period

abbrev quotaAt (tree : Tree) (level : List String) : Int :=
  limitAt tree quotaFile parseV1Int level

abbrev periodAt (tree : Tree) (level : List String) : Int :=
  limitAt tree periodFile parseV1Int level

def walkUpLevel (tree : Tree) (filename : String) (parse : Bytes → Int) :
    List String → Option (List String)
  | [] => if 0 < limitAt tree filename parse [] then some [] else none
  | name :: parent =>
    if 0 < limitAt tree filename parse (name :: parent) then some (name :: parent)
    else walkUpLevel tree filename parse parent

/-- Of the control group and those above it, `level` is the first with a positive value. -/
def Nearest (tree : Tree) (filename : String) (cgPath level : List String) : Prop :=
  level <:+ cgPath ∧ 0 < limitAt tree filename parseV1Int level ∧
    ∀ lower, lower <:+ cgPath → level.length < lower.length →
      limitAt tree filename parseV1Int lower ≤ 0

variable {tree : Tree} {filename : String} {cgPath level : List String}

theorem walkUpLimit_eq (tree : Tree) (filename : String) (parse : Bytes → Int)
    (cgPath : List String) :
    walkUpLimit tree filename parse cgPath =
      (walkUpLevel tree filename parse cgPath).elim 0 (limitAt tree filename parse) := by
  induction cgPath with
  | nil =>
    rw [walkUpLimit, walkUpLevel]
    split_ifs <;> rfl
  | cons name parent ih =>
    rw [walkUpLimit, walkUpLevel]
    split_ifs
    · rfl
    · exact ih

theorem walkUpLevel_eq_some_iff :
    walkUpLevel tree filename parseV1Int cgPath = some level ↔
      Nearest tree filename cgPath level := by
  induction cgPath with
  | nil =>
    simp only [walkUpLevel, Nearest, List.suffix_nil]
    split_ifs with hpos
    · constructor
      · rintro ⟨⟩
        exact ⟨rfl, hpos, by simp⟩
      · rintro ⟨rfl, -⟩
        rfl
    · constructor
      · rintro ⟨⟩
      · rintro ⟨rfl, h, -⟩
        exact absurd h hpos
  | cons name parent ih =>
    rw [walkUpLevel]
    split_ifs with hpos
    · constructor
      · rintro ⟨⟩
        refine ⟨List.suffix_rfl, hpos, fun lower hlower hlength => ?_⟩
        exact absurd hlower.length_le (Nat.not_le.mpr hlength)
      · rintro ⟨hlevel, -, hlower⟩
        rcases List.suffix_cons_iff.mp hlevel with rfl | hparent
        · rfl
        · have hle := hlower _ List.suffix_rfl (Nat.lt_succ_of_le hparent.length_le)
          omega
    · rw [ih]
      constructor
      · rintro ⟨hlevel, hlimit, hlower⟩
        refine ⟨hlevel.trans (List.suffix_cons name parent), hlimit, fun lower hsuffix hlt => ?_⟩
        rcases List.suffix_cons_iff.mp hsuffix with rfl | hparent
        · exact Int.not_lt.mp hpos
        · exact hlower lower hparent hlt
      · rintro ⟨hlevel, hlimit, hlower⟩
        rcases List.suffix_cons_iff.mp hlevel with rfl | hparent
        · exact absurd hlimit hpos
        · exact ⟨hparent, hlimit, fun lower hsuffix hlt =>
            hlower lower (hsuffix.trans (List.suffix_cons name parent)) hlt⟩

theorem limitAt_le (tree : Tree) (filename : String) (rel : List String) :
    limitAt tree filename parseV1Int rel ≤ maxInt := by
  unfold limitAt
  cases readRootFile tree rel filename with
  | none => decide
  | some data =>
    simp only [Option.elim, parseV1Int]
    split
    · rename_i v hv
      split_ifs
      · decide
      · exact atoi_le hv
    · decide

section Rounding

variable {quota period : Int}

theorem ceil_eq (hperiod : 0 < period) :
    ⌈(quota : ℚ) / period⌉ = (quota + period - 1) / period := by
  have hpos : (0 : ℚ) < period := by exact_mod_cast hperiod
  have hlow := Int.ediv_mul_le (quota + period - 1) hperiod.ne'
  have hhigh := Int.lt_ediv_add_one_mul_self (quota + period - 1) hperiod
  rw [Int.ceil_eq_iff, lt_div_iff₀ hpos, div_le_iff₀ hpos]
  constructor
  · have hlt : ((quota + period - 1) / period - 1) * period < quota := by
      rw [Int.sub_mul]
      omega
    exact_mod_cast hlt
  · have hle : quota ≤ (quota + period - 1) / period * period := by
      rw [Int.add_mul] at hhigh
      omega
    exact_mod_cast hle

theorem addInt_round : addInt (addInt quota period) (-1) =
    Int.bmod (quota + period - 1) (2 ^ 64) := by
  unfold addInt
  rw [Int.bmod_add_bmod, Int.sub_eq_add_neg]

theorem rounded_of_fits (hquota : 0 < quota) (hperiod : 0 < period)
    (hfits : quota + period - 1 ≤ maxInt) :
    (addInt (addInt quota period) (-1)).tdiv period = ⌈(quota : ℚ) / period⌉ := by
  have hexact : Int.bmod (quota + period - 1) (2 ^ 64) = quota + period - 1 := by
    unfold maxInt at hfits
    apply Int.bmod_eq_of_le <;> norm_num <;> omega
  rw [addInt_round, hexact, Int.tdiv_eq_ediv_of_nonneg (by omega), ceil_eq hperiod]

/-- A sum that does not fit is negative, and so there is no limit. -/
theorem rounded_of_wraps (hquota : quota ≤ maxInt) (hperiod : 0 < period)
    (hle : period ≤ maxInt) (hwraps : maxInt < quota + period - 1) :
    (addInt (addInt quota period) (-1)).tdiv period ≤ 0 := by
  have hneg : Int.bmod (quota + period - 1) (2 ^ 64) ≤ 0 := by
    unfold maxInt at *
    rw [Int.bmod_def]
    norm_num
    omega
  have hflip := Int.tdiv_nonneg (Int.neg_nonneg_of_nonpos hneg) hperiod.le
  rw [Int.neg_tdiv] at hflip
  rw [addInt_round]
  omega

end Rounding

theorem walkUpLimit_of_nearest (h : Nearest tree filename cgPath level) :
    walkUpLimit tree filename parseV1Int cgPath = limitAt tree filename parseV1Int level := by
  rw [walkUpLimit_eq, walkUpLevel_eq_some_iff.mpr h]
  rfl

theorem exists_nearest (h : 0 < walkUpLimit tree filename parseV1Int cgPath) :
    ∃ level, Nearest tree filename cgPath level := by
  rw [walkUpLimit_eq] at h
  cases hlevel : walkUpLevel tree filename parseV1Int cgPath with
  | none =>
    rw [hlevel] at h
    exact absurd h (Int.lt_irrefl 0)
  | some level => exact ⟨level, walkUpLevel_eq_some_iff.mp hlevel⟩

variable {quotaLevel periodLevel : List String}

theorem v1CFSFromRoot_of_nearest (hquota : Nearest tree quotaFile cgPath quotaLevel)
    (hperiod : Nearest tree periodFile cgPath periodLevel) :
    v1CFSFromRoot tree cgPath =
      (addInt (addInt (quotaAt tree quotaLevel) (periodAt tree periodLevel)) (-1)).tdiv
        (periodAt tree periodLevel) := by
  unfold v1CFSFromRoot
  rw [walkUpLimit_of_nearest hquota, walkUpLimit_of_nearest hperiod]
  simp only [if_neg (Int.not_le.mpr hquota.2.1), if_neg (Int.not_le.mpr hperiod.2.1)]

/-- A limit is computed from the nearest quota and the nearest period. -/
theorem exists_nearest_of_pos (h : 0 < v1CFSFromRoot tree cgPath) :
    ∃ quotaLevel periodLevel, Nearest tree quotaFile cgPath quotaLevel ∧
      Nearest tree periodFile cgPath periodLevel ∧
      quotaAt tree quotaLevel + periodAt tree periodLevel - 1 ≤ maxInt := by
  have hboth : 0 < walkUpLimit tree quotaFile parseV1Int cgPath ∧
      0 < walkUpLimit tree periodFile parseV1Int cgPath := by
    unfold v1CFSFromRoot at h
    simp only at h
    split_ifs at h with hquota hperiod
    · exact absurd h (Int.lt_irrefl 0)
    · exact absurd h (Int.lt_irrefl 0)
    · exact ⟨Int.not_le.mp hquota, Int.not_le.mp hperiod⟩
  obtain ⟨quotaLevel, hquota⟩ := exists_nearest hboth.1
  obtain ⟨periodLevel, hperiod⟩ := exists_nearest hboth.2
  refine ⟨quotaLevel, periodLevel, hquota, hperiod, Int.not_lt.mp fun hwraps => ?_⟩
  rw [v1CFSFromRoot_of_nearest hquota hperiod] at h
  have hle := rounded_of_wraps (limitAt_le tree quotaFile quotaLevel) hperiod.2.1
    (limitAt_le tree periodFile periodLevel) hwraps
  exact absurd h (Int.not_lt.mpr hle)

/-- The quota and the period of a limit are read from one control group, the nearest one
with a quota, exactly if that is the nearest one with a period too wherever the two of
them give a limit. -/
theorem v1CFS_one_level_iff (tree : Tree) (cgPath : List String) :
    (0 < v1CFSFromRoot tree cgPath →
      ∃ level, Nearest tree quotaFile cgPath level ∧
        walkUpLevel tree quotaFile parseV1Int cgPath = some level ∧
        walkUpLevel tree periodFile parseV1Int cgPath = some level ∧
        quotaAt tree level + periodAt tree level - 1 ≤ maxInt ∧
        v1CFSFromRoot tree cgPath = ⌈(quotaAt tree level : ℚ) / periodAt tree level⌉) ↔
      ∀ quotaLevel periodLevel, Nearest tree quotaFile cgPath quotaLevel →
        Nearest tree periodFile cgPath periodLevel →
        quotaAt tree quotaLevel + periodAt tree periodLevel - 1 ≤ maxInt →
        quotaLevel = periodLevel := by
  constructor
  · intro h quotaLevel periodLevel hquota hperiod hfits
    have hpos : 0 < v1CFSFromRoot tree cgPath := by
      rw [v1CFSFromRoot_of_nearest hquota hperiod,
        rounded_of_fits hquota.2.1 hperiod.2.1 hfits, Int.ceil_pos]
      have hq : (0 : ℚ) < quotaAt tree quotaLevel := by exact_mod_cast hquota.2.1
      have hp : (0 : ℚ) < periodAt tree periodLevel := by exact_mod_cast hperiod.2.1
      exact div_pos hq hp
    obtain ⟨level, -, hquota', hperiod', -⟩ := h hpos
    rw [walkUpLevel_eq_some_iff.mpr hquota] at hquota'
    rw [walkUpLevel_eq_some_iff.mpr hperiod] at hperiod'
    exact (Option.some_inj.mp hquota').trans (Option.some_inj.mp hperiod').symm
  · intro h hpos
    obtain ⟨level, periodLevel, hquota, hperiod, hfits⟩ := exists_nearest_of_pos hpos
    obtain rfl := h level periodLevel hquota hperiod hfits
    refine ⟨level, hquota, walkUpLevel_eq_some_iff.mpr hquota,
      walkUpLevel_eq_some_iff.mpr hperiod, hfits, ?_⟩
    rw [v1CFSFromRoot_of_nearest hquota hperiod]
    exact rounded_of_fits hquota.2.1 hperiod.2.1 hfits

def podTree : Tree := fun rel filename =>
  if rel = ["container", "pod"] then
    if filename = quotaFile then some (ascii "-1\n") else some (ascii "100000\n")
  else if rel = ["pod"] then
    if filename = quotaFile then some (ascii "200000\n") else some (ascii "50000\n")
  else none

/-- The pod allows four CPUs; its quota is divided by the period of the container. -/
theorem v1CFS_mixes_levels :
    v1CFSFromRoot podTree ["container", "pod"] = 2 ∧
      walkUpLevel podTree quotaFile parseV1Int ["container", "pod"] = some ["pod"] ∧
      quotaAt podTree ["pod"] = 4 * periodAt podTree ["pod"] := by
  decide +kernel

end Gopherd.Cpu
