import EventSchema.Keyed
import Mathlib.Algebra.GroupWithZero.Nat
import Mathlib.Data.Finset.Card
import Mathlib.Data.List.Basic
import Mathlib.Data.List.Induction
import Mathlib.Data.List.Nodup
import Mathlib.Data.List.Perm.Subperm
import Mathlib.Order.RelClasses

namespace EventSchema

theorem one_lt_length_iff {κ : Type} [DecidableEq κ] {keys : List κ} (distinct : keys.Nodup) :
    1 < keys.length ↔ ∃ first ∈ keys, ∃ second ∈ keys, first ≠ second := by
  rw [← List.toFinset_card_of_nodup distinct]
  simp only [Finset.one_lt_card, List.mem_toFinset]

namespace Ordered

variable {κ : Type} [LT κ] [DecidableLT κ] [DecidableEq κ]

def Increasing (keys : List κ) : Prop := keys.Pairwise (· < ·)

@[simp] theorem mem_insert (key other : κ) (keys : List κ) :
    other ∈ insert key keys ↔ other = key ∨ other ∈ keys := by
  induction keys with
  | nil => simp [insert]
  | cons first rest ih =>
      rw [insert]
      split
      · simp
      · split
        · rename_i same
          simp [same]
        · simp only [List.mem_cons, ih]
          exact or_left_comm

theorem mem_union (left right : List κ) (key : κ) :
    key ∈ union left right ↔ key ∈ left ∨ key ∈ right := by
  rw [union]
  induction right generalizing left with
  | nil => simp
  | cons first rest ih =>
      rw [List.foldl_cons, ih, mem_insert, List.mem_cons, or_comm (a := key = first), or_assoc]

theorem mem_ofList (keys : List κ) (key : κ) : key ∈ ofList keys ↔ key ∈ keys := by
  have united : key ∈ ofList keys ↔ key ∈ [] ∨ key ∈ keys := mem_union [] keys key
  simpa using united

omit [LT κ] [DecidableLT κ] in
theorem mem_erase (key other : κ) (keys : List κ) :
    other ∈ erase key keys ↔ other ∈ keys ∧ other ≠ key := by
  simp [erase]

variable [IsStrictTotalOrder κ (· < ·)]

theorem increasing_insert (key : κ) (keys : List κ) (increasing : Increasing keys) :
    Increasing (insert key keys) := by
  induction keys with
  | nil => exact List.pairwise_singleton _ key
  | cons first rest ih =>
      rcases List.pairwise_cons.mp increasing with ⟨head, tail⟩
      rw [insert]
      split
      · rename_i less
        refine List.pairwise_cons.mpr ⟨?_, increasing⟩
        intro other member
        rcases List.mem_cons.mp member with rfl | later
        · exact less
        · exact trans_of (· < ·) less (head other later)
      · rename_i notLess
        split
        · exact increasing
        · rename_i different
          have greater : first < key := by
            rcases trichotomous_of (· < ·) key first with less | same | greater
            · exact absurd less notLess
            · exact absurd same different
            · exact greater
          refine List.pairwise_cons.mpr ⟨?_, ih tail⟩
          intro other member
          rcases (mem_insert key other rest).mp member with rfl | later
          · exact greater
          · exact head other later

theorem increasing_union (left right : List κ) (increasing : Increasing left) :
    Increasing (union left right) := by
  rw [union]
  induction right generalizing left with
  | nil => exact increasing
  | cons key rest ih => exact ih _ (increasing_insert key left increasing)

theorem increasing_ofList (keys : List κ) : Increasing (ofList keys) :=
  increasing_union [] keys List.Pairwise.nil

omit [DecidableLT κ] [DecidableEq κ] in
theorem Increasing.nodup {keys : List κ} (increasing : Increasing keys) : keys.Nodup := by
  apply List.Pairwise.imp _ increasing
  intro first second less same
  exact irrefl_of (· < ·) second (same ▸ less)

omit [DecidableLT κ] [DecidableEq κ] in
theorem eq_of_mem_iff {left right : List κ} (first : Increasing left) (second : Increasing right)
    (same : ∀ key, key ∈ left ↔ key ∈ right) : left = right := by
  have perm : left.Perm right := (List.perm_ext_iff_of_nodup first.nodup second.nodup).mpr same
  exact perm.eq_of_pairwise
    (fun _ _ _ _ less greater => absurd greater (asymm_of (· < ·) less)) first second

theorem union_eq_self {left right : List κ} (increasing : Increasing left)
    (present : ∀ key ∈ right, key ∈ left) : union left right = left := by
  apply eq_of_mem_iff (increasing_union left right increasing) increasing
  intro key
  rw [mem_union, or_iff_left_of_imp (present key)]

theorem length_ofList_eq_iff (keys : List κ) : (ofList keys).length = keys.length ↔ keys.Nodup := by
  have once := (increasing_ofList keys).nodup
  constructor
  · intro same
    have subset : ofList keys ⊆ keys := fun key => (mem_ofList keys key).mp
    have perm := (List.Nodup.subperm once subset).perm_of_length_le (Nat.le_of_eq same.symm)
    exact perm.nodup_iff.mp once
  · intro distinct
    exact ((List.perm_ext_iff_of_nodup once distinct).mpr (mem_ofList keys)).length_eq

end Ordered

namespace Keyed

variable {κ α β : Type}

section Lookup

variable [DecidableEq κ]

theorem mem_of_lookup {key : κ} {value : α} {entries : List (κ × α)}
    (found : lookup key entries = some value) : (key, value) ∈ entries := by
  induction entries with
  | nil => simp [lookup] at found
  | cons entry rest ih =>
      rcases entry with ⟨first, present⟩
      rw [lookup] at found
      split at found
      · rename_i same
        rw [same, Option.some.inj found]
        exact List.mem_cons_self
      · exact List.mem_cons_of_mem _ (ih found)

theorem lookup_eq_some_iff_append (key : κ) (entries : List (κ × α)) (value : α) :
    lookup key entries = some value ↔
      ∃ before after, entries = before ++ (key, value) :: after ∧
        ∀ entry ∈ before, entry.1 ≠ key := by
  constructor
  · intro found
    induction entries with
    | nil => cases found
    | cons entry rest ih =>
        rcases entry with ⟨first, present⟩
        rw [lookup] at found
        by_cases same : key = first
        · rw [if_pos same] at found
          obtain rfl := Option.some.inj found
          subst same
          exact ⟨[], rest, rfl, by simp⟩
        · rw [if_neg same] at found
          obtain ⟨before, after, rfl, fresh⟩ := ih found
          exact ⟨(first, present) :: before, after, rfl,
            List.forall_mem_cons.mpr ⟨Ne.symm same, fresh⟩⟩
  · rintro ⟨before, after, rfl, fresh⟩
    induction before with
    | nil => simp [lookup]
    | cons entry rest ih =>
        rcases entry with ⟨first, present⟩
        obtain ⟨other, later⟩ := List.forall_mem_cons.mp fresh
        rw [List.cons_append, lookup, if_neg (Ne.symm other)]
        exact ih later

theorem lookup_isSome_iff (key : κ) (entries : List (κ × α)) :
    (lookup key entries).isSome ↔ key ∈ keys entries := by
  induction entries with
  | nil => simp [lookup, keys]
  | cons entry rest ih =>
      rcases entry with ⟨first, present⟩
      by_cases same : key = first
      · simp [lookup, keys, same]
      · simpa [lookup, keys, same] using ih

theorem lookup_eq_none_iff (key : κ) (entries : List (κ × α)) :
    lookup key entries = none ↔ key ∉ keys entries := by
  rw [← lookup_isSome_iff, Option.not_isSome_iff_eq_none]

theorem lookup_map (key : κ) (change : α → β) (entries : List (κ × α)) :
    lookup key (entries.map fun entry => (entry.1, change entry.2)) =
      (lookup key entries).map change := by
  induction entries with
  | nil => rfl
  | cons entry rest ih =>
      by_cases same : key = entry.1
      · simp [lookup, same]
      · simpa [lookup, same] using ih

theorem lookup_map_mk (key : κ) (value : κ → α) (keys : List κ) :
    lookup key (keys.map fun name => (name, value name)) =
      if key ∈ keys then some (value key) else none := by
  induction keys with
  | nil => rfl
  | cons first rest ih =>
      by_cases same : key = first
      · simp [lookup, same]
      · simp [lookup, same, ih]

end Lookup

variable [LT κ]

def Increasing (entries : List (κ × α)) : Prop := Ordered.Increasing (keys entries)

variable [DecidableLT κ] [DecidableEq κ]

@[simp] theorem lookup_insert_self (key : κ) (value : α) (entries : List (κ × α)) :
    lookup key (insert key value entries) = some value := by
  induction entries with
  | nil => simp [insert, lookup]
  | cons entry rest ih =>
      rcases entry with ⟨first, present⟩
      rw [insert]
      split
      · simp [lookup]
      · split
        · simp [lookup]
        · rename_i different
          simp [lookup, different, ih]

theorem lookup_insert_of_ne (key other : κ) (value : α) (entries : List (κ × α))
    (different : other ≠ key) : lookup other (insert key value entries) = lookup other entries := by
  induction entries with
  | nil => simp [insert, lookup, different]
  | cons entry rest ih =>
      rcases entry with ⟨first, present⟩
      rw [insert]
      split
      · simp [lookup, different]
      · split
        · rename_i same
          simp [lookup, different, ← same]
        · simp [lookup, ih]

theorem lookup_insert (key other : κ) (value : α) (entries : List (κ × α)) :
    lookup other (insert key value entries) =
      if other = key then some value else lookup other entries := by
  by_cases same : other = key
  · simp [same]
  · simp [same, lookup_insert_of_ne]

theorem lookup_alter (key other : κ) (change : Option α → α) (entries : List (κ × α)) :
    lookup other (alter key change entries) =
      if other = key then some (change (lookup key entries)) else lookup other entries :=
  lookup_insert key other _ entries

theorem keys_insert (key : κ) (value : α) (entries : List (κ × α)) :
    keys (insert key value entries) = Ordered.insert key (keys entries) := by
  induction entries with
  | nil => rfl
  | cons entry rest ih =>
      rcases entry with ⟨first, present⟩
      by_cases less : key < first
      · simp [insert, keys, Ordered.insert, less]
      · by_cases same : key = first
        · subst first
          simp [insert, keys, Ordered.insert, less]
        · simpa [insert, keys, Ordered.insert, less, same] using ih

theorem mem_insert {key : κ} {value : α} {entries : List (κ × α)} {entry : κ × α}
    (member : entry ∈ insert key value entries) : entry = (key, value) ∨ entry ∈ entries := by
  induction entries with
  | nil => exact .inl (List.mem_singleton.mp member)
  | cons head rest ih =>
      rcases head with ⟨first, present⟩
      rw [insert] at member
      split at member
      · exact List.mem_cons.mp member
      · split at member
        · rcases List.mem_cons.mp member with same | later
          · exact .inl same
          · exact .inr (List.mem_cons_of_mem _ later)
        · rcases List.mem_cons.mp member with same | later
          · exact .inr (same ▸ List.mem_cons_self)
          · exact (ih later).imp_right (List.mem_cons_of_mem _)

theorem mem_ofList {pairs : List (κ × α)} {entry : κ × α} (member : entry ∈ ofList pairs) :
    entry ∈ pairs := by
  have traced : ∀ entries : List (κ × α),
      entry ∈ pairs.foldl (fun entries pair => insert pair.1 pair.2 entries) entries →
        entry ∈ pairs ∨ entry ∈ entries := by
    clear member
    induction pairs with
    | nil => exact fun _ found => .inr found
    | cons pair rest ih =>
        intro entries found
        rcases ih _ found with later | present
        · exact .inl (List.mem_cons_of_mem _ later)
        · rcases mem_insert present with same | old
          · exact .inl (same ▸ List.mem_cons_self)
          · exact .inr old
  simpa using traced [] member

theorem ofList_concat (pairs : List (κ × α)) (key : κ) (value : α) :
    ofList (pairs ++ [(key, value)]) = insert key value (ofList pairs) := by
  rw [ofList, List.foldl_append]
  rfl

@[simp] theorem lookup_ofList_nil (key : κ) : lookup key (ofList ([] : List (κ × α))) = none := rfl

theorem lookup_ofList_append (key : κ) (front back : List (κ × α)) :
    lookup key (ofList (front ++ back)) =
      (lookup key (ofList back)).or (lookup key (ofList front)) := by
  induction back using List.reverseRecOn with
  | nil => simp
  | append_singleton back pair ih =>
      rcases pair with ⟨last, value⟩
      rw [← List.append_assoc, ofList_concat, ofList_concat, lookup_insert, lookup_insert, ih]
      by_cases same : key = last <;> simp [same]

theorem lookup_ofList_cons (key first : κ) (value : α) (rest : List (κ × α)) :
    lookup key (ofList ((first, value) :: rest)) =
      (lookup key (ofList rest)).or (if key = first then some value else none) :=
  lookup_ofList_append key [(first, value)] rest

theorem lookup_ofList_toList (key name : κ) (write : β → α) (present : Option β) :
    lookup key (ofList (present.map fun value => (name, write value)).toList) =
      if key = name then present.map write else none := by
  cases present with
  | none => simp
  | some value => simp [lookup_ofList_cons]

theorem lookup_ofList_ite (key name : κ) (value : α) (absent : Prop) [Decidable absent] :
    lookup key (ofList (if absent then [] else [(name, value)])) =
      if key = name ∧ ¬ absent then some value else none := by
  by_cases given : absent <;> simp [given, lookup_ofList_cons]

variable [IsStrictTotalOrder κ (· < ·)]

theorem increasing_insert (key : κ) (value : α) (entries : List (κ × α))
    (increasing : Increasing entries) : Increasing (insert key value entries) := by
  rw [Increasing]
  rw [keys_insert]
  exact Ordered.increasing_insert key _ increasing

theorem increasing_alter (key : κ) (change : Option α → α) (entries : List (κ × α))
    (increasing : Increasing entries) : Increasing (alter key change entries) :=
  increasing_insert key _ entries increasing

theorem increasing_ofList (pairs : List (κ × α)) : Increasing (ofList pairs) := by
  have kept : ∀ entries : List (κ × α), Increasing entries →
      Increasing (pairs.foldl (fun entries pair => insert pair.1 pair.2 entries) entries) := by
    induction pairs with
    | nil => exact fun _ increasing => increasing
    | cons pair rest ih =>
        exact fun entries increasing => ih _ (increasing_insert pair.1 pair.2 entries increasing)
  exact kept [] List.Pairwise.nil

omit [DecidableLT κ] in
theorem lookup_of_mem {key : κ} {value : α} {entries : List (κ × α)}
    (increasing : Increasing entries) (member : (key, value) ∈ entries) :
    lookup key entries = some value := by
  induction entries with
  | nil => cases member
  | cons entry rest ih =>
      rcases List.pairwise_cons.mp increasing with ⟨head, tail⟩
      rcases List.mem_cons.mp member with same | later
      · simp [← same, lookup]
      · have less : entry.1 < key := head key (List.mem_map_of_mem later)
        have different : key ≠ entry.1 := fun same => irrefl_of (· < ·) key (same ▸ less)
        simpa [lookup, different] using ih tail later

omit [DecidableLT κ] in
theorem mem_values_iff {entries : List (κ × α)} (increasing : Increasing entries) (value : α) :
    value ∈ values entries ↔ ∃ key, lookup key entries = some value := by
  constructor
  · intro member
    obtain ⟨⟨key, value⟩, inside, rfl⟩ := List.mem_map.mp member
    exact ⟨key, lookup_of_mem increasing inside⟩
  · rintro ⟨key, found⟩
    exact List.mem_map.mpr ⟨(key, value), mem_of_lookup found, rfl⟩

omit [DecidableLT κ] in
theorem lookup_eq_none_of_lt {key first : κ} {present : α} {rest : List (κ × α)}
    (increasing : Increasing ((first, present) :: rest)) (less : key < first) :
    lookup key ((first, present) :: rest) = none := by
  rw [lookup_eq_none_iff]
  intro member
  rcases List.mem_cons.mp member with same | later
  · exact irrefl_of (· < ·) key (same ▸ less)
  · exact asymm_of (· < ·) less ((List.pairwise_cons.mp increasing).1 key later)

theorem sum_values_insert (key : κ) (value : Nat) (entries : List (κ × Nat))
    (increasing : Increasing entries) :
    (values (insert key value entries)).sum + (lookup key entries).getD 0 =
      (values entries).sum + value := by
  induction entries with
  | nil => simp [insert, values, lookup]
  | cons entry rest ih =>
      rcases entry with ⟨first, present⟩
      have inner := ih (List.pairwise_cons.mp increasing).2
      simp only [values] at inner
      by_cases less : key < first
      · rw [lookup_eq_none_of_lt increasing less]
        simp [insert, less, values]
        omega
      · by_cases same : key = first
        · subst same
          simp [insert, less, values, lookup]
          omega
        · simp [insert, less, same, values, lookup]
          omega

omit [DecidableLT κ] in
theorem eq_filterMap_keys {entries : List (κ × α)} (increasing : Increasing entries) :
    entries = (keys entries).filterMap fun key => (lookup key entries).map (key, ·) := by
  calc
    entries = entries.filterMap some := List.filterMap_some.symm
    _ = entries.filterMap fun entry => (lookup entry.1 entries).map (entry.1, ·) := by
        apply List.filterMap_congr
        intro entry member
        rcases entry with ⟨key, value⟩
        simp [lookup_of_mem increasing member]
    _ = (keys entries).filterMap fun key => (lookup key entries).map (key, ·) := by
        rw [keys, List.filterMap_map]
        rfl

omit [DecidableLT κ] in
theorem flatMap_eq_lookup (key : κ) {entries : List (κ × α)} (increasing : Increasing entries)
    (list : κ × α → List β) (empty : ∀ entry ∈ entries, entry.1 ≠ key → list entry = []) :
    entries.flatMap list = (lookup key entries).elim [] fun value => list (key, value) := by
  induction entries with
  | nil => rfl
  | cons entry rest ih =>
      obtain ⟨own, others⟩ := List.forall_mem_cons.mp empty
      obtain ⟨head, tail⟩ := List.pairwise_cons.mp increasing
      rw [List.flatMap_cons, lookup]
      split
      · rename_i same
        have later : rest.flatMap list = [] := by
          rw [List.flatMap_eq_nil_iff]
          intro other member
          have less : entry.1 < other.1 := head other.1 (List.mem_map_of_mem member)
          apply others other member
          intro again
          rw [again, ← same] at less
          exact irrefl_of (· < ·) key less
        rw [later, List.append_nil, same]
        rfl
      · rename_i different
        rw [own (Ne.symm different), List.nil_append, ih tail others]

omit [DecidableLT κ] in
theorem eq_of_lookup {left right : List (κ × α)} (first : Increasing left)
    (second : Increasing right) (same : ∀ key, lookup key left = lookup key right) :
    left = right := by
  have sameKeys : keys left = keys right := by
    apply Ordered.eq_of_mem_iff first second
    intro key
    rw [← lookup_isSome_iff, ← lookup_isSome_iff, same]
  rw [eq_filterMap_keys first, eq_filterMap_keys second, sameKeys]
  simp only [same]

theorem map_insert_eq_map {change : α → β} {key : κ} {value newer : α} {entries : List (κ × α)}
    (increasing : Increasing entries) (found : lookup key entries = some value)
    (same : change newer = change value) :
    (insert key newer entries).map (fun entry => (entry.1, change entry.2)) =
      entries.map fun entry => (entry.1, change entry.2) := by
  have mapped : ∀ {entries : List (κ × α)}, Increasing entries →
      Increasing (entries.map fun entry => (entry.1, change entry.2)) := by
    intro entries ordered
    simpa [Increasing, keys, Function.comp_def] using ordered
  apply eq_of_lookup (mapped (increasing_insert key newer entries increasing)) (mapped increasing)
  intro other
  rw [lookup_map, lookup_map, lookup_insert]
  split
  · rename_i own
    rw [own, found, Option.map_some, Option.map_some, same]
  · rfl

omit [IsStrictTotalOrder κ (· < ·)] in
theorem keys_ofList (pairs : List (κ × α)) : keys (ofList pairs) = Ordered.ofList (keys pairs) := by
  induction pairs using List.reverseRecOn with
  | nil => rfl
  | append_singleton pairs pair ih =>
      rw [ofList_concat, keys_insert, ih]
      simp [Ordered.ofList, keys]

theorem length_ofList_eq_iff (pairs : List (κ × α)) :
    (ofList pairs).length = pairs.length ↔ (keys pairs).Nodup := by
  rw [← Ordered.length_ofList_eq_iff, ← keys_ofList, keys, keys, List.length_map, List.length_map]

theorem ofList_perm {pairs : List (κ × α)} (distinct : (keys pairs).Nodup) :
    (ofList pairs).Perm pairs := by
  have same := (length_ofList_eq_iff pairs).mpr distinct
  have once : (ofList pairs).Nodup := List.Nodup.of_map _ (increasing_ofList pairs).nodup
  have subset : ofList pairs ⊆ pairs := fun _ => mem_ofList
  exact (List.Nodup.subperm once subset).perm_of_length_le (Nat.le_of_eq same.symm)

omit [IsStrictTotalOrder κ (· < ·)] in
theorem lookup_ofList_map_iff {before : β → β → Prop} {sources : List β} (pair : β → κ × α)
    (ordered : sources.Pairwise before) (apart : ∀ first second, before first second →
      ¬ before second first) (key : κ) (value : α) :
    lookup key (ofList (sources.map pair)) = some value ↔
      ∃ source ∈ sources, pair source = (key, value) ∧
        ∀ other ∈ sources, before source other → (pair other).1 ≠ key := by
  induction sources using List.reverseRecOn with
  | nil => simp
  | append_singleton sources last ih =>
      obtain ⟨earlier, -, final⟩ := List.pairwise_append.mp ordered
      have below : ∀ source ∈ sources, before source last := fun source member =>
        final source member last List.mem_cons_self
      rw [List.map_append, List.map_singleton, ofList_concat, lookup_insert]
      simp only [List.mem_append, List.mem_singleton]
      by_cases same : key = (pair last).1
      · rw [if_pos same, Option.some.injEq]
        constructor
        · intro found
          refine ⟨last, .inr rfl, Prod.ext same.symm found, ?_⟩
          rintro other (inside | rfl) later
          · exact absurd later (apart _ _ (below other inside))
          · exact absurd later (apart _ _ later)
        · rintro ⟨source, inside | rfl, paired, quiet⟩
          · exact absurd same.symm (quiet last (.inr rfl) (below source inside))
          · exact congrArg Prod.snd paired
      · rw [if_neg same, ih earlier]
        constructor
        · rintro ⟨source, inside, paired, quiet⟩
          refine ⟨source, .inl inside, paired, ?_⟩
          rintro other (inside' | rfl) later
          · exact quiet other inside' later
          · exact Ne.symm same
        · rintro ⟨source, inside | rfl, paired, quiet⟩
          · exact ⟨source, inside, paired, fun other inside' => quiet other (.inl inside')⟩
          · exact absurd (congrArg Prod.fst paired).symm same

def gathered (pairs : List (κ × α)) : List (κ × List α) :=
  pairs.foldl
    (fun entries (key, value) => alter key (fun values => values.getD [] ++ [value]) entries) []

def paired (key : κ) (pairs : List (κ × α)) : List α := (pairs.filter (·.1 = key)).map (·.2)

def collected (put : α → Option β → β) (pairs : List (κ × α)) : List (κ × β) :=
  pairs.foldl (fun entries (key, value) => alter key (put value) entries) []

omit [LT κ] [DecidableLT κ] [IsStrictTotalOrder κ (· < ·)] in
theorem mem_paired (key : κ) (value : α) (pairs : List (κ × α)) :
    value ∈ paired key pairs ↔ (key, value) ∈ pairs := by
  simp [paired]

omit [LT κ] [DecidableLT κ] [IsStrictTotalOrder κ (· < ·)] in
theorem paired_append (key : κ) (front back : List (κ × α)) :
    paired key (front ++ back) = paired key front ++ paired key back := by
  simp [paired]

omit [LT κ] [DecidableLT κ] [IsStrictTotalOrder κ (· < ·)] in
theorem paired_map_mk (key : κ) (values : List α) : paired key (values.map (key, ·)) = values := by
  simp [paired, List.filter_map, Function.comp_def]

omit [LT κ] [DecidableLT κ] [IsStrictTotalOrder κ (· < ·)] in
theorem paired_flatMap (key : κ) (sources : List β) (pairs : β → List (κ × α)) :
    paired key (sources.flatMap pairs) =
      sources.flatMap fun source => paired key (pairs source) := by
  rw [paired, List.filter_flatMap, List.map_flatMap]
  rfl

omit [LT κ] [DecidableLT κ] [IsStrictTotalOrder κ (· < ·)] in
theorem paired_perm (key : κ) {pairs pairs' : List (κ × α)} (shuffled : pairs.Perm pairs') :
    (paired key pairs).Perm (paired key pairs') :=
  (shuffled.filter _).map _

omit [IsStrictTotalOrder κ (· < ·)] in
theorem collected_append (put : α → Option β → β) (pairs : List (κ × α)) (key : κ) (value : α) :
    collected put (pairs ++ [(key, value)]) = alter key (put value) (collected put pairs) := by
  rw [collected, List.foldl_append]
  rfl

omit [IsStrictTotalOrder κ (· < ·)] in
theorem keys_collected (put : α → Option β → β) (pairs : List (κ × α)) :
    keys (collected put pairs) = Ordered.ofList (keys pairs) := by
  induction pairs using List.reverseRecOn with
  | nil => rfl
  | append_singleton pairs pair ih =>
      rw [collected_append, alter, keys_insert, ih]
      simp [Ordered.ofList, keys]

theorem increasing_collected (put : α → Option β → β) (pairs : List (κ × α)) :
    Increasing (collected put pairs) := by
  induction pairs using List.reverseRecOn with
  | nil => exact List.Pairwise.nil
  | append_singleton pairs pair ih =>
      rw [collected_append]
      exact increasing_alter _ _ _ ih

omit [IsStrictTotalOrder κ (· < ·)] in
theorem lookup_collected (put : α → Option β → β) (key : κ) (pairs : List (κ × α)) :
    lookup key (collected put pairs) =
      (paired key pairs).foldl (fun present value => some (put value present)) none := by
  induction pairs using List.reverseRecOn with
  | nil => rfl
  | append_singleton pairs pair ih =>
      rcases pair with ⟨first, value⟩
      rw [collected_append, lookup_alter, paired_append, List.foldl_append, ← ih]
      by_cases same : key = first
      · subst same
        simp [paired]
      · simp [paired, same, Ne.symm same]

theorem increasing_gathered (pairs : List (κ × α)) : Increasing (gathered pairs) :=
  increasing_collected (fun value values => values.getD [] ++ [value]) pairs

omit [IsStrictTotalOrder κ (· < ·)] in
theorem lookup_gathered (key : κ) (pairs : List (κ × α)) :
    lookup key (gathered pairs) =
      if paired key pairs = [] then none else some (paired key pairs) := by
  have found := lookup_collected (fun value values => values.getD [] ++ [value]) key pairs
  refine Eq.trans found ?_
  induction paired key pairs using List.reverseRecOn with
  | nil => rfl
  | append_singleton values last ih =>
      rw [List.foldl_append, ih]
      by_cases empty : values = [] <;> simp [empty]

omit [LT κ] [DecidableLT κ] [DecidableEq κ] [IsStrictTotalOrder κ (· < ·)] in
theorem majority_eq_none_iff {entries : List (κ × Nat)} :
    majority entries = none ↔ entries = [] := by
  cases entries <;> simp [majority]

def IsMajority (entries : List (κ × Nat)) (key : κ) : Prop :=
  ∃ most, (key, most) ∈ entries ∧
    ∀ other count, (other, count) ∈ entries → count < most ∨ count = most ∧ ¬ other < key

omit [DecidableLT κ] [DecidableEq κ] in
theorem majority_best (key : κ) (count : Nat) (rest : List (κ × Nat))
    (increasing : Increasing ((key, count) :: rest)) :
    IsMajority ((key, count) :: rest) (majority.best key count rest) := by
  induction rest generalizing key count with
  | nil =>
      refine ⟨count, List.mem_cons_self, ?_⟩
      intro other occurrences member
      obtain ⟨rfl, rfl⟩ : other = key ∧ occurrences = count := by simpa using member
      exact .inr ⟨rfl, irrefl_of (· < ·) other⟩
  | cons entry rest ih =>
      rcases entry with ⟨other, occurrences⟩
      rcases List.pairwise_cons.mp increasing with ⟨head, tail⟩
      have less : key < other := head other List.mem_cons_self
      rw [majority.best]
      split
      · rename_i more
        rcases ih other occurrences tail with ⟨most, member, bound⟩
        refine ⟨most, List.mem_cons_of_mem _ member, ?_⟩
        intro third number inside
        rcases List.mem_cons.mp inside with same | later
        · rcases Prod.mk.inj same with ⟨rfl, rfl⟩
          left
          rcases bound other occurrences List.mem_cons_self with fewer | ⟨equal, -⟩ <;> omega
        · exact bound third number later
      · rename_i fewer
        -- the entry passed over counts no more than the key before it, and comes later
        have shorter : Increasing ((key, count) :: rest) :=
          List.pairwise_cons.mpr ⟨fun name member => head name (List.mem_cons_of_mem _ member),
            (List.pairwise_cons.mp tail).2⟩
        rcases ih key count shorter with ⟨most, member, bound⟩
        have own := bound key count List.mem_cons_self
        refine ⟨most, ?_, ?_⟩
        · rcases List.mem_cons.mp member with same | later
          · exact same ▸ List.mem_cons_self
          · exact List.mem_cons_of_mem _ (List.mem_cons_of_mem _ later)
        · intro third number inside
          rcases List.mem_cons.mp inside with same | later
          · exact bound third number (same ▸ List.mem_cons_self)
          rcases List.mem_cons.mp later with same | further
          · rcases Prod.mk.inj same with ⟨rfl, rfl⟩
            rcases own with below | ⟨equal, notLess⟩
            · exact .inl (by omega)
            · rcases Nat.lt_or_ge number most with below | above
              · exact .inl below
              · refine .inr ⟨by omega, fun earlier => notLess (trans_of (· < ·) less earlier)⟩
          · exact bound third number (List.mem_cons_of_mem _ further)

omit [DecidableLT κ] [DecidableEq κ] in
theorem majority_isMajority {entries : List (κ × Nat)} {key : κ} (increasing : Increasing entries)
    (found : majority entries = some key) : IsMajority entries key := by
  cases entries with
  | nil => cases found
  | cons entry rest =>
      rcases entry with ⟨first, count⟩
      obtain rfl : majority.best first count rest = key := Option.some.inj found
      exact majority_best first count rest increasing

end Keyed

end EventSchema
