/-
  ArtifactCourier.Proofs.Deflate.Lengths
  ──────────────────────────────────────
  **Chosen word lengths make a code.**

  Merging keeps all leaves, and the leaves above any depth of a tree fit above it
  (`Fits`, `merge_spec`).  The cut at the limit keeps this: what is in excess are words of the
  greatest length alone (`Limitable`).  Every step of `makeRoom` takes one of them away and
  keeps the number of words (`Limitable.makeRoom`); it finds a word to lengthen, since words
  that all have the greatest length do not exceed the room.

    • `limited_spec` — the numbers of words fit into the room and none is lost,
    • `length_handOut`, `sum_parts_handOut` — the lengths have these numbers,
    • `haveRoom_ofFrequencies` — so words of these lengths have room,
    • `ofFrequencies_ne_zero` — and every symbol that occurs has a length.
-/
import Mathlib.Algebra.Order.BigOperators.Group.List
import Mathlib.Algebra.Order.Ring.Nat
import Mathlib.Tactic.Ring
import ArtifactCourier.Deflate.Lengths
import ArtifactCourier.Proofs.Deflate.Words

namespace ArtifactCourier.Deflate.Lengths

/-! ## §1. Merging. -/

/-- The room that the leaves above a depth take up, in units of a leaf at that depth. -/
def filled : (depth : Nat) → Profile → Nat
  | 0, _ => 0
  | _ + 1, [] => 0
  | depth + 1, n :: profile => n * 2 ^ (depth + 1) + filled depth profile

/-- The leaves above every depth fit above it. -/
def Fits (profile : Profile) : Prop := ∀ depth, filled depth profile ≤ 2 ^ depth

@[simp] theorem filled_nil (depth : Nat) : filled depth [] = 0 := by cases depth <;> rfl

theorem filled_addProfiles (depth : Nat) (a b : Profile) :
    filled depth (addProfiles a b) = filled depth a + filled depth b := by
  induction depth generalizing a b with
  | zero => rfl
  | succ depth ih =>
    match a, b with
    | [], b => simp [addProfiles]
    | x :: a, [] => simp [addProfiles]
    | x :: a, y :: b =>
      simp only [addProfiles, filled, ih]
      ring

theorem sum_addProfiles (a b : Profile) : (addProfiles a b).sum = a.sum + b.sum := by
  match a, b with
  | [], b => simp [addProfiles]
  | x :: a, [] => simp [addProfiles]
  | x :: a, y :: b =>
    simp only [addProfiles, List.sum_cons, sum_addProfiles a b]
    omega

theorem fits_nil : Fits [] := fun depth => by simp

theorem fits_leaf : Fits [1] := by
  intro depth
  cases depth <;> simp [filled]

/-- Two trees that fit make up one that does: a level down there is twice the room. -/
theorem Fits.join {a b : Profile} (ha : Fits a) (hb : Fits b) : Fits (0 :: addProfiles a b) := by
  intro depth
  cases depth with
  | zero => exact Nat.zero_le _
  | succ depth =>
    have left := ha depth
    have right := hb depth
    simp only [filled, filled_addProfiles, Nat.pow_succ]
    omega

/-- The leaves of several trees. -/
def leafCount (bundles : List Bundle) : Nat := (bundles.map fun b => b.profile.sum).sum

/-- Taking the lightest tree away loses none. -/
theorem perm_of_lightest? {leaves merged : List Bundle} {a : Bundle} {leaves' merged' : List Bundle}
    (h : lightest? leaves merged = some (a, leaves', merged')) :
    List.Perm (leaves ++ merged) (a :: (leaves' ++ merged')) := by
  match leaves, merged with
  | [], [] => cases h
  | l :: leaves, [] =>
    cases h
    exact .refl _
  | [], m :: merged =>
    cases h
    exact .refl _
  | l :: leaves, m :: merged =>
    rw [lightest?] at h
    split at h
    · cases h
      exact List.perm_middle
    · cases h
      exact .refl _

theorem eq_nil_of_lightest? {leaves merged : List Bundle} (h : lightest? leaves merged = none) :
    leaves ++ merged = [] := by
  match leaves, merged with
  | [], [] => rfl
  | l :: leaves, [] => cases h
  | [], m :: merged => cases h
  | l :: leaves, m :: merged =>
    rw [lightest?] at h
    split at h <;> cases h

/-- **Merging trees that fit gives one that fits, with all their leaves.** -/
theorem merge_spec {steps : Nat} {leaves merged : List Bundle}
    (enough : (leaves ++ merged).length ≤ steps) (fits : ∀ b ∈ leaves ++ merged, Fits b.profile) :
    Fits (merge steps leaves merged)
      ∧ (merge steps leaves merged).sum = leafCount (leaves ++ merged) := by
  induction steps generalizing leaves merged with
  | zero =>
    have nothing : leaves ++ merged = [] := List.eq_nil_of_length_eq_zero (Nat.le_zero.1 enough)
    rw [nothing, merge]
    exact ⟨fits_nil, rfl⟩
  | succ steps ih =>
    rw [merge]
    split
    case h_1 nothing =>
      rw [eq_nil_of_lightest? nothing]
      exact ⟨fits_nil, rfl⟩
    case h_2 a leaves' merged' first =>
      have perm := perm_of_lightest? first
      have fits_a : Fits a.profile := fits a (perm.mem_iff.2 (List.mem_cons_self ..))
      have count : leafCount (leaves ++ merged) = a.profile.sum + leafCount (leaves' ++ merged') := by
        rw [leafCount, (perm.map _).sum_eq]
        rfl
      split
      case h_1 nothing =>
        rw [eq_nil_of_lightest? nothing] at count
        exact ⟨fits_a, count.symm⟩
      case h_2 b leaves'' merged'' second =>
        -- The two lightest trees become one, which comes behind the merged ones.
        have perm' := perm_of_lightest? second
        have others {c : Bundle} (hc : c ∈ b :: (leaves'' ++ merged'')) : Fits c.profile :=
          fits c (perm.mem_iff.2 (List.mem_cons_of_mem _ (perm'.mem_iff.2 hc)))
        have fewer : (leaves'' ++ (merged'' ++ [a.join b])).length ≤ steps := by
          have := perm.length_eq
          have := perm'.length_eq
          simp only [List.length_append, List.length_cons, List.length_nil] at *
          omega
        have rest := ih fewer (by
          intro c hc
          rw [← List.append_assoc, List.mem_append, List.mem_singleton] at hc
          rcases hc with hc | rfl
          · exact others (List.mem_cons_of_mem _ hc)
          · exact fits_a.join (others (List.mem_cons_self ..)))
        refine ⟨rest.1, rest.2.trans ?_⟩
        have joined : leafCount (leaves'' ++ (merged'' ++ [a.join b]))
            = leafCount (leaves'' ++ merged'') + (a.profile.sum + b.profile.sum) := by
          simp only [leafCount, List.map_append, List.sum_append, List.map_cons, List.map_nil,
            List.sum_cons, List.sum_nil, Bundle.join, sum_addProfiles]
          omega
        have count' : leafCount (leaves' ++ merged')
            = b.profile.sum + leafCount (leaves'' ++ merged'') := by
          rw [leafCount, (perm'.map _).sum_eq]
          rfl
        omega

/-- Leaves above a depth take up at least their number. -/
theorem sum_le_filled {depth : Nat} {profile : Profile} (h : profile.length ≤ depth) :
    profile.sum ≤ filled depth profile := by
  induction depth generalizing profile with
  | zero =>
    rw [List.eq_nil_of_length_eq_zero (Nat.le_zero.1 h)]
    exact Nat.zero_le _
  | succ depth ih =>
    cases profile with
    | nil => exact Nat.zero_le _
    | cons n profile =>
      have later := ih (Nat.le_of_succ_le_succ h)
      have here : n ≤ n * 2 ^ (depth + 1) := Nat.le_mul_of_pos_right n (Nat.two_pow_pos _)
      simp only [List.sum_cons, filled]
      omega

/-- The root of a tree is a leaf only if it is the one leaf. -/
theorem Fits.root_eq_zero {n : Nat} {profile : Profile} (fits : Fits (n :: profile))
    (several : (n :: profile).sum ≠ 1) : n = 0 := by
  have room := fits (profile.length + 1)
  have below := sum_le_filled (Nat.le_refl profile.length)
  rw [List.sum_cons] at several
  simp only [filled] at room
  by_contra some_root
  have one : n ≤ 1 := by
    refine Nat.le_of_mul_le_mul_right ?_ (Nat.two_pow_pos (profile.length + 1))
    omega
  obtain rfl : n = 1 := by omega
  omega

/-! ## §2. Limiting. -/

@[simp] theorem length_cut (limit : Nat) (profile : Profile) :
    (cut limit profile).length = limit + 1 := by
  fun_induction cut limit profile <;> simp_all

/-- No word is lost. -/
theorem sum_cut (limit : Nat) (profile : Profile) : (cut limit profile).sum = profile.sum := by
  fun_induction cut limit profile <;> simp_all [← List.sum_eq_foldr]

/-- The words that were cut have the greatest length, and take up their number. -/
theorem used_cut (limit : Nat) (profile : Profile) :
    used (cut limit profile) = filled limit profile + (profile.drop limit).sum := by
  fun_induction cut limit profile with
  | case1 profile => simp [used, filled, ← List.sum_eq_foldr]
  | case2 limit ih => simpa [used] using ih
  | case3 limit n profile ih =>
    simp only [used, length_cut, ih, filled, List.drop_succ_cons]
    exact (Nat.add_assoc ..).symm

/-- The words of the greatest length are those that were cut. -/
theorem longest_cut (limit : Nat) (profile : Profile) :
    longest (cut limit profile) = (profile.drop limit).sum := by
  have behind (n limit : Nat) (profile : Profile) :
      longest (n :: cut limit profile) = longest (cut limit profile) := by
    rw [longest, List.getLastD_cons, longest]
    cases h : cut limit profile with
    | nil => simpa [h] using length_cut limit profile
    | cons _ _ => rfl
  fun_induction cut limit profile with
  | case1 profile => rfl
  | case2 limit ih => rw [behind, ih, List.drop_nil, List.drop_nil]
  | case3 limit n profile ih => rw [behind, ih, List.drop_succ_cons]

/-- Numbers of `total` words that come within the limit by making room: only words of the greatest
length are in excess. -/
structure Limitable (limit total : Nat) (counts : Counts) : Prop where
  length : counts.length = limit + 1
  total : counts.sum = total
  no_empty_word : counts.headD 0 = 0
  excess : used counts ≤ 2 ^ limit + longest counts

theorem limitable_cut {profile : Profile} (fits : Fits profile) (several : profile.sum ≠ 1)
    {limit : Nat} (hl : 1 ≤ limit) : Limitable limit profile.sum (cut limit profile) where
  length := length_cut limit profile
  total := sum_cut limit profile
  no_empty_word := by
    obtain ⟨limit, rfl⟩ : ∃ n, limit = n + 1 := ⟨limit - 1, by omega⟩
    cases profile with
    | nil => rfl
    | cons n profile => exact fits.root_eq_zero several
  excess := by
    rw [used_cut, longest_cut]
    exact Nat.add_le_add_right (fits limit) _

/-- A greatest length more makes all others take up twice as much. -/
theorem used_concat (shorter : Counts) (n : Nat) : used (shorter ++ [n]) = 2 * used shorter + n := by
  induction shorter with
  | nil => simp [used]
  | cons m shorter ih =>
    simp only [List.cons_append, used, ih, List.length_append, List.length_singleton, Nat.pow_eq,
      Nat.pow_succ]
    ring

@[simp] theorem longest_concat (shorter : Counts) (n : Nat) : longest (shorter ++ [n]) = n := by
  simp [longest]

/-- A word of the greatest length less. -/
theorem dropLongest_concat (shorter : Counts) (n : Nat) :
    dropLongest (shorter ++ [n]) = shorter ++ [n - 1] := by
  simp [dropLongest]

/-- **A word is made longer, and another one of its new length comes in, in the same room.** -/
theorem lengthen?_spec {counts longer : Counts} (h : lengthen? counts = some longer) :
    longer.length = counts.length ∧ longer.sum = counts.sum + 1 ∧ used longer = used counts
      ∧ longest counts ≤ longest longer ∧ (counts.headD 0 = 0 → longer.headD 0 = 0) := by
  match counts with
  | [] => cases h
  | [_] => cases h
  | n :: m :: counts =>
    rw [lengthen?] at h
    split at h
    case h_1 later below =>
      cases h
      obtain ⟨length, sum, room, long, -⟩ := lengthen?_spec below
      obtain ⟨k, later, rfl⟩ : ∃ k rest, later = k :: rest := List.exists_cons_of_length_eq_add_one length
      refine ⟨congrArg (· + 1) length, ?_, ?_, long, id⟩
      · simp only [List.sum_cons] at sum ⊢
        omega
      · have same : later.length = counts.length := Nat.succ.inj length
        simp only [used, List.length_cons, same] at room ⊢
        rw [room]
    case h_2 =>
      split at h
      case isTrue => cases h
      case isFalse some_word =>
        cases h
        refine ⟨rfl, ?_, ?_, ?_, fun none => absurd none some_word⟩
        · simp only [List.sum_cons]
          omega
        · obtain ⟨n, rfl⟩ : ∃ k, n = k + 1 := ⟨n - 1, by omega⟩
          simp only [used, List.length_cons, Nat.add_sub_cancel, Nat.pow_eq, Nat.pow_succ]
          ring
        · cases counts <;> simp [longest]

/-- If there is none to be made longer, all words have the greatest length. -/
theorem used_eq_sum_of_lengthen? {counts : Counts} (h : lengthen? counts = none) :
    used counts = counts.sum := by
  match counts with
  | [] => rfl
  | [n] => simp [used]
  | n :: m :: counts =>
    rw [lengthen?] at h
    split at h
    case h_1 => cases h
    case h_2 below =>
      split at h
      case isFalse => cases h
      case isTrue no_word =>
        have later := used_eq_sum_of_lengthen? below
        rw [used, later, no_word, Nat.zero_mul, ← List.sum_cons]

/-- **Every word in excess is taken away by one step**, and the number of words stays. -/
theorem Limitable.makeRoom {limit total : Nat} {counts : Counts}
    (h : Limitable limit total counts) (few : total ≤ 2 ^ limit)
    (above : 2 ^ limit < used counts) :
    Limitable limit total (makeRoom counts) ∧ used (Lengths.makeRoom counts) + 1 = used counts := by
  obtain ⟨length, sum, no_empty_word, excess⟩ := h
  have nonempty : counts ≠ [] := by
    rintro rfl
    cases length
  obtain ⟨shorter, n, rfl⟩ : ∃ shorter n, counts = shorter ++ [n] :=
    ⟨_, _, (List.dropLast_append_getLast nonempty).symm⟩
  simp only [List.length_append, List.length_singleton, List.sum_append, List.sum_singleton,
    longest_concat, used_concat] at length sum excess above
  -- what exceeds the room are words of the greatest length
  obtain ⟨n, rfl⟩ : ∃ k, n = k + 1 := ⟨n - 1, by omega⟩
  have no_empty_word : (shorter ++ [n]).headD 0 = 0 := by
    cases shorter with
    | nil => cases no_empty_word
    | cons _ _ => exact no_empty_word
  rw [Lengths.makeRoom, dropLongest_concat, Nat.add_sub_cancel]
  cases longer : lengthen? (shorter ++ [n]) with
  | none =>
    -- All words would have the greatest length, and then there is room for them.
    have all := used_eq_sum_of_lengthen? longer
    simp only [used_concat, List.sum_append, List.sum_singleton] at all
    omega
  | some counts =>
    obtain ⟨same, one_more, room, long, head⟩ := lengthen?_spec longer
    simp only [List.length_append, List.length_singleton, List.sum_append, List.sum_singleton,
      longest_concat, used_concat] at same one_more room long
    refine ⟨⟨?_, ?_, head no_empty_word, ?_⟩, ?_⟩ <;>
      simp only [Option.getD_some, used_concat] <;> omega

/-- **All that are in excess are taken away.** -/
theorem Limitable.makeRoomFor {limit total excess : Nat} {counts : Counts}
    (h : Limitable limit total counts) (few : total ≤ 2 ^ limit)
    (above : used counts - 2 ^ limit = excess) :
    Limitable limit total (makeRoomFor excess counts)
      ∧ used (Lengths.makeRoomFor excess counts) ≤ 2 ^ limit := by
  induction excess generalizing counts with
  | zero => exact ⟨h, Nat.le_of_sub_eq_zero above⟩
  | succ excess ih =>
    obtain ⟨limitable, less⟩ := h.makeRoom few (by omega)
    exact ih limitable (by omega)

/-- **The numbers of words fit into the room, and none is lost.** -/
theorem limited_spec {limit : Nat} (hl : 1 ≤ limit) {profile : Profile} (fits : Fits profile)
    (several : profile.sum ≠ 1) (few : profile.sum ≤ 2 ^ limit) :
    Limitable limit profile.sum (limited limit profile)
      ∧ used (limited limit profile) ≤ 2 ^ limit :=
  (limitable_cut fits several hl).makeRoomFor few rfl

/-! ## §3. Lengths. -/

@[simp] theorem length_handOut (first : Nat) (counts : Counts) :
    (handOut first counts).length = counts.sum := by
  induction counts generalizing first with
  | nil => rfl
  | cons n counts ih => simp [handOut, ih]

/-- Only lengths that are counted are handed out. -/
theorem mem_handOut {first n : Nat} {counts : Counts} (h : n ∈ handOut first counts) :
    first ≤ n ∧ n < first + counts.length ∧ (counts.headD 0 = 0 → first < n) := by
  induction counts generalizing first with
  | nil => cases h
  | cons count counts ih =>
    rw [handOut, List.mem_append, List.mem_replicate] at h
    rcases h with ⟨some_word, rfl⟩ | later
    · exact ⟨le_rfl, by simp, fun none => absurd none some_word⟩
    · obtain ⟨lower, upper, -⟩ := ih later
      rw [List.length_cons]
      omega

/-- The lengths that are handed out take up the room that their numbers tell. -/
theorem sum_parts_handOut {first limit : Nat} {counts : Counts}
    (inside : first + counts.length = limit + 1) :
    ((handOut first counts).map (part limit)).sum ≤ used counts := by
  induction counts generalizing first with
  | nil => simp [handOut]
  | cons count counts ih =>
    rw [List.length_cons] at inside
    have behind : first + 1 + counts.length = limit + 1 := by omega
    have later := ih behind
    have here : part limit first ≤ 2 ^ counts.length := by
      rw [part]
      split
      · exact Nat.zero_le _
      · exact Nat.pow_le_pow_right (by decide) (by omega)
    simp only [handOut, List.map_append, List.map_replicate, List.sum_append, List.sum_replicate_nat,
      used]
    exact Nat.add_le_add (Nat.mul_le_mul_left count here) later

/-- What the lengths of `size` symbols in use owe a code. -/
structure Suits (limit size : Nat) (lengths : List Nat) : Prop where
  enough : size ≤ lengths.length
  positive : ∀ n ∈ lengths, n ≠ 0
  room : HaveRoom limit lengths

/-- **The lengths for symbols in use suit them.** -/
theorem suits_lengthsFor {limit : Nat} (hl : 1 ≤ limit) {sorted : List (Nat × Nat)}
    (few : sorted.length ≤ 2 ^ limit) : Suits limit sorted.length (lengthsFor limit sorted) := by
  rw [lengthsFor]
  split
  case isTrue alone =>
    have half : 2 ^ (limit - 1) ≤ 2 ^ limit := Nat.pow_le_pow_right (by decide) (Nat.sub_le _ _)
    refine ⟨alone.le, by simp, by simpa using hl, ?_⟩
    have some_length : (1 : Nat) ≠ 0 := by decide
    simpa only [List.map_cons, List.map_nil, List.sum_singleton, part, if_neg some_length] using half
  case isFalse several =>
    let leaves : List Bundle := sorted.map fun p => ⟨p.1, [1]⟩
    have leaf : ∀ b ∈ leaves ++ [], Fits b.profile := by
      intro b hb
      rw [List.append_nil] at hb
      obtain ⟨_, -, rfl⟩ := List.mem_map.1 hb
      exact fits_leaf
    have count : leafCount (leaves ++ []) = sorted.length := by
      simp [leafCount, leaves, Function.comp_def]
    have enough : (leaves ++ []).length ≤ sorted.length := by simp [leaves]
    obtain ⟨fits, sum⟩ := merge_spec enough leaf
    rw [count] at sum
    obtain ⟨limitable, room⟩ := limited_spec hl fits (by omega) (by omega)
    have total := limitable.total
    have length := limitable.length
    refine ⟨?_, fun n hn => ?_, fun n hn => ?_, ?_⟩
    · rw [length_handOut]
      exact (total.trans sum).ge
    · exact Nat.ne_of_gt ((mem_handOut hn).2.2 limitable.no_empty_word)
    · have inside := (mem_handOut hn).2.1
      rw [length] at inside
      omega
    · exact Nat.le_trans (sum_parts_handOut (by rw [length, Nat.zero_add])) room

/-! ## §4. Symbols. -/

/-- A length that replaces another one takes up no more room than if it came as well. -/
theorem sum_map_set_le (f : Nat → Nat) (lengths : List Nat) (symbol n : Nat) :
    ((lengths.set symbol n).map f).sum ≤ (lengths.map f).sum + f n := by
  induction lengths generalizing symbol with
  | nil => simp
  | cons m lengths ih =>
    cases symbol with
    | zero =>
      simp only [List.set_cons_zero, List.map_cons, List.sum_cons]
      omega
    | succ symbol =>
      have later := ih symbol
      simp only [List.set_cons_succ, List.map_cons, List.sum_cons]
      omega

section Give

variable {limit : Nat} {given : List (Nat × Nat)}

@[simp] theorem size_give (lengths : Array Nat) (given : List (Nat × Nat)) :
    (give lengths given).size = lengths.size :=
  List.foldlRecOn (motive := fun (a : Array Nat) => a.size = lengths.size) given _ rfl
    fun _ same _ _ => (Array.size_setIfInBounds ..).trans same

theorem le_of_mem_give {lengths : Array Nat} (low : ∀ n ∈ lengths.toList, n ≤ limit)
    (short : ∀ g ∈ given, g.2 ≤ limit) : ∀ n ∈ (give lengths given).toList, n ≤ limit := by
  refine List.foldlRecOn (motive := fun (a : Array Nat) => ∀ n ∈ a.toList, n ≤ limit) given _ low ?_
  intro a low g hg n hn
  rw [Array.toList_setIfInBounds] at hn
  rcases List.mem_or_eq_of_mem_set hn with hn | rfl
  · exact low n hn
  · exact short g hg

theorem sum_parts_give (lengths : Array Nat) :
    ((give lengths given).toList.map (part limit)).sum
      ≤ (lengths.toList.map (part limit)).sum + (given.map fun g => part limit g.2).sum := by
  induction given generalizing lengths with
  | nil => exact le_rfl
  | cons g given ih =>
    have later := ih (lengths.setIfInBounds g.1 g.2)
    have here := sum_map_set_le (part limit) lengths.toList g.1 g.2
    rw [Array.toList_setIfInBounds] at later
    rw [List.map_cons, List.sum_cons]
    exact Nat.le_trans later (by omega)

/-- A length is not taken away again. -/
theorem getD_give_ne_zero {lengths : Array Nat} (positive : ∀ g ∈ given, g.2 ≠ 0) {symbol : Nat}
    (some_length : lengths.getD symbol 0 ≠ 0) : (give lengths given).getD symbol 0 ≠ 0 := by
  refine List.foldlRecOn (motive := fun (a : Array Nat) => a.getD symbol 0 ≠ 0) given _
    some_length ?_
  intro a kept g hg
  simp only [Array.getD_eq_getD_getElem?, Array.getElem?_setIfInBounds] at kept ⊢
  split
  case isTrue =>
    split
    case isTrue => exact positive g hg
    case isFalse outside =>
      rename_i same
      rw [Array.getElem?_eq_none (by omega)] at kept
      exact absurd rfl kept
  case isFalse => exact kept

/-- **A symbol that is given a length has one.** -/
theorem give_ne_zero {lengths : Array Nat} (positive : ∀ g ∈ given, g.2 ≠ 0) {symbol : Nat}
    (inside : symbol < lengths.size) (mem : symbol ∈ given.map (·.1)) :
    (give lengths given).getD symbol 0 ≠ 0 := by
  obtain ⟨⟨symbol, n⟩, hg, rfl⟩ := List.mem_map.1 mem
  obtain ⟨before, after, rfl⟩ := List.append_of_mem hg
  have split : give lengths (before ++ (symbol, n) :: after)
      = give ((give lengths before).setIfInBounds symbol n) after := by
    rw [give, List.foldl_append, List.foldl_cons]
    rfl
  have here : n ≠ 0 := positive _ hg
  rw [split]
  refine getD_give_ne_zero (fun g hg => positive g (by simp [hg])) ?_
  simpa [Array.getD_eq_getD_getElem?, Array.getElem?_setIfInBounds, inside] using here

end Give

/-- Lengths that are handed out to some symbols each are taken at most once. -/
theorem sum_map_zip_le (f : Nat → Nat) (symbols lengths : List Nat) :
    ((symbols.zip lengths).map fun g => f g.2).sum ≤ (lengths.map f).sum := by
  induction lengths generalizing symbols with
  | nil => simp
  | cons n lengths ih =>
    cases symbols with
    | nil => exact Nat.zero_le _
    | cons symbol symbols =>
      have later := ih symbols
      simp only [List.zip_cons_cons, List.map_cons, List.sum_cons]
      omega

/-- The symbols that occur. -/
theorem mem_occurring {frequencies : Array Nat} {symbol : Nat}
    (occurs : frequencies.getD symbol 0 ≠ 0) : symbol ∈ (occurring frequencies).map (·.2) := by
  have there : frequencies.toList[symbol]? = some (frequencies.getD symbol 0) := by
    cases h : frequencies[symbol]? with
    | none => simp [Array.getD_eq_getD_getElem?, h] at occurs
    | some f => simp [Array.getD_eq_getD_getElem?, h]
  refine List.mem_map.2 ⟨(frequencies.getD symbol 0, symbol), ?_, rfl⟩
  rw [occurring, List.mem_mergeSort, List.mem_filter]
  exact ⟨List.mem_zipIdx_iff_getElem?.2 there, by simpa using occurs⟩

theorem length_occurring_le (frequencies : Array Nat) :
    (occurring frequencies).length ≤ frequencies.size := by
  rw [occurring, List.length_mergeSort]
  exact Nat.le_trans (List.length_filter_le _ _) (by simp)

section OfFrequencies

variable {limit : Nat} {frequencies : Array Nat}

/-- **There is a length for every symbol.** -/
@[simp] theorem length_ofFrequencies (limit : Nat) (frequencies : Array Nat) :
    (ofFrequencies limit frequencies).length = frequencies.size := by
  rw [ofFrequencies, Array.length_toList, size_give, Array.size_replicate]

variable (hl : 1 ≤ limit) (few : frequencies.size ≤ 2 ^ limit)
include hl few

theorem suits_occurring :
    Suits limit (occurring frequencies).length (lengthsFor limit (occurring frequencies)) :=
  suits_lengthsFor hl (Nat.le_trans (length_occurring_le frequencies) few)

/-- **Words of the lengths have room.** -/
theorem haveRoom_ofFrequencies : HaveRoom limit (ofFrequencies limit frequencies) := by
  obtain ⟨-, -, short, room⟩ := suits_occurring hl few
  let symbols := (occurring frequencies).reverse.map (·.2)
  let lengths := lengthsFor limit (occurring frequencies)
  have nothing : (Array.replicate frequencies.size 0).toList = List.replicate frequencies.size 0 :=
    Array.toList_replicate
  constructor
  · refine le_of_mem_give (fun n hn => ?_) fun g hg => short _ (List.of_mem_zip hg).2
    rw [nothing] at hn
    exact (List.eq_of_mem_replicate hn).trans_le (Nat.zero_le _)
  · -- Of the lengths that were chosen, each is given to one symbol at most.
    have zeros : ((Array.replicate frequencies.size 0).toList.map (part limit)).sum = 0 := by
      simp [part]
    have given : ((give (Array.replicate frequencies.size 0) (symbols.zip lengths)).toList.map
        (part limit)).sum
        ≤ ((Array.replicate frequencies.size 0).toList.map (part limit)).sum
          + ((symbols.zip lengths).map fun g => part limit g.2).sum := sum_parts_give _
    have once := sum_map_zip_le (part limit) symbols lengths
    rw [zeros, Nat.zero_add] at given
    exact Nat.le_trans given (Nat.le_trans once room)

/-- **Every symbol that occurs has a length.** -/
theorem ofFrequencies_ne_zero {symbol : Nat} (occurs : frequencies.getD symbol 0 ≠ 0) :
    (ofFrequencies limit frequencies).getD symbol 0 ≠ 0 := by
  obtain ⟨enough, positive, -⟩ := suits_occurring hl few
  have inside : symbol < (Array.replicate frequencies.size 0).size := by
    rw [Array.size_replicate]
    by_contra outside
    exact occurs (by rw [Array.getD, dif_neg outside])
  have given : symbol ∈ (((occurring frequencies).reverse.map (·.2)).zip
      (lengthsFor limit (occurring frequencies))).map (·.1) := by
    rw [List.map_fst_zip (by simpa using enough), List.map_reverse, List.mem_reverse]
    exact mem_occurring occurs
  have some_length := give_ne_zero (fun g hg => positive _ (List.of_mem_zip hg).2) inside given
  rwa [Array.getD_eq_getD_getElem?, ← Array.getElem?_toList] at some_length

end OfFrequencies
end ArtifactCourier.Deflate.Lengths
