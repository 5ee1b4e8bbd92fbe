/-
  Foundation/OrderedMap.lean --- finite maps listed by ascending key.
-/
import Mathlib.Data.List.Pairwise
import Mathlib.Order.Lattice

set_option autoImplicit false

namespace CwDb.Foundation

/-- Entries with strictly ascending keys. -/
structure OrderedMap (κ α : Type) [LinearOrder κ] where
  entries : List (κ × α)
  sorted : (entries.map Prod.fst).Pairwise (· < ·)

namespace OrderedMap

variable {κ α : Type} [LinearOrder κ]

def empty : OrderedMap κ α := ⟨[], .nil⟩

instance : Inhabited (OrderedMap κ α) := ⟨empty⟩

def size (m : OrderedMap κ α) : Nat := m.entries.length

def keys (m : OrderedMap κ α) : List κ := m.entries.map Prod.fst

def find? (m : OrderedMap κ α) (k : κ) : Option α :=
  (m.entries.find? fun e => e.1 = k).map Prod.snd

/-- The values of the keys from `low` to `high`, by ascending key. -/
def range (m : OrderedMap κ α) (low high : κ) : List α :=
  (m.entries.filter fun e => low ≤ e.1 ∧ e.1 ≤ high).map Prod.snd

/-- The map with the value of one key set. -/
def insert (m : OrderedMap κ α) (k : κ) (a : α) : OrderedMap κ α where
  entries := (m.entries.filter fun e => e.1 < k) ++ (k, a) :: m.entries.filter fun e => k < e.1
  sorted := by
    have hsub : ∀ p : κ × α → Bool, ((m.entries.filter p).map Prod.fst).Pairwise (· < ·) :=
      fun p => m.sorted.sublist (List.filter_sublist.map Prod.fst)
    rw [List.map_append, List.map_cons, List.pairwise_append, List.pairwise_cons]
    refine ⟨hsub _, ⟨?_, hsub _⟩, ?_⟩
    · intro x hx
      obtain ⟨e, he, rfl⟩ := List.mem_map.mp hx
      simpa using (List.mem_filter.mp he).2
    · intro x hx y hy
      obtain ⟨e, he, rfl⟩ := List.mem_map.mp hx
      have hlt : e.1 < k := by simpa using (List.mem_filter.mp he).2
      rcases List.mem_cons.mp hy with rfl | hy
      · exact hlt
      · obtain ⟨e', he', rfl⟩ := List.mem_map.mp hy
        have hgt : k < e'.1 := by simpa using (List.mem_filter.mp he').2
        exact lt_trans hlt hgt

/-- The map without one key. -/
def erase (m : OrderedMap κ α) (k : κ) : OrderedMap κ α where
  entries := m.entries.filter fun e => e.1 ≠ k
  sorted := m.sorted.sublist (List.filter_sublist.map Prod.fst)

variable {m : OrderedMap κ α} {before after : List (κ × α)} {k : κ} {a : α}

theorem ext_entries {m m' : OrderedMap κ α} (h : m.entries = m'.entries) : m = m' := by
  cases m
  cases m'
  simpa using h

/-! ## The place of a key -/

/-- Entries in order split at a key. -/
theorem exists_place {l : List (κ × α)} (sorted : (l.map Prod.fst).Pairwise (· < ·)) (k : κ) :
    ∃ before after, l = before ++ after ∧ (∀ e ∈ before, e.1 < k) ∧
      ((∃ a rest, after = (k, a) :: rest ∧ ∀ e ∈ rest, k < e.1) ∨ ∀ e ∈ after, k < e.1) := by
  induction l with
  | nil => exact ⟨[], [], rfl, nofun, .inr nofun⟩
  | cons e l ih =>
      rw [List.map_cons, List.pairwise_cons] at sorted
      by_cases hlt : e.1 < k
      · obtain ⟨before, after, rfl, hbefore, hafter⟩ := ih sorted.2
        exact ⟨e :: before, after, rfl, List.forall_mem_cons.mpr ⟨hlt, hbefore⟩, hafter⟩
      · have habove : ∀ e' ∈ l, k < e'.1 := fun e' he' =>
          lt_of_le_of_lt (le_of_not_gt hlt) (sorted.1 _ (List.mem_map_of_mem he'))
        refine ⟨[], e :: l, rfl, nofun, ?_⟩
        rcases eq_or_lt_of_le (le_of_not_gt hlt) with heq | hgt
        · exact .inl ⟨e.2, l, by rw [heq], habove⟩
        · exact .inr (List.forall_mem_cons.mpr ⟨hgt, habove⟩)

theorem find?_of_mem (hbefore : ∀ e ∈ before, e.1 < k)
    (h : m.entries = before ++ (k, a) :: after) : m.find? k = some a := by
  have hskip : before.find? (fun e => decide (e.1 = k)) = none := by
    rw [List.find?_eq_none]
    intro e he
    simpa using ne_of_lt (hbefore e he)
  rw [find?, h, List.find?_append, hskip, Option.none_or, List.find?_cons_of_pos (by simp)]
  rfl

section Place

variable (hbefore : ∀ e ∈ before, e.1 < k) (hafter : ∀ e ∈ after, k < e.1)

include hbefore hafter

theorem find?_of_not_mem (h : m.entries = before ++ after) : m.find? k = none := by
  rw [find?, h, Option.map_eq_none_iff, List.find?_eq_none]
  intro e he
  rcases List.mem_append.mp he with he | he
  · simpa using ne_of_lt (hbefore e he)
  · simpa using ne_of_gt (hafter e he)

theorem entries_insert (h : m.entries = before ++ after) :
    (m.insert k a).entries = before ++ (k, a) :: after := by
  have hleft : (before ++ after).filter (fun e => e.1 < k) = before := by
    rw [List.filter_append, List.filter_eq_self.mpr (by simpa using hbefore),
      List.filter_eq_nil_iff.mpr (by simpa using fun x y he => le_of_lt (hafter (x, y) he)),
      List.append_nil]
  have hright : (before ++ after).filter (fun e => k < e.1) = after := by
    rw [List.filter_append,
      List.filter_eq_nil_iff.mpr (by simpa using fun x y he => le_of_lt (hbefore (x, y) he)),
      List.filter_eq_self.mpr (by simpa using hafter), List.nil_append]
  change m.entries.filter _ ++ (k, a) :: m.entries.filter _ = _
  rw [h, hleft, hright]

theorem entries_erase (h : m.entries = before ++ (k, a) :: after) :
    (m.erase k).entries = before ++ after := by
  have hleft : before.filter (fun e => e.1 ≠ k) = before :=
    List.filter_eq_self.mpr fun e he => by simpa using ne_of_lt (hbefore e he)
  have hright : after.filter (fun e => e.1 ≠ k) = after :=
    List.filter_eq_self.mpr fun e he => by simpa using ne_of_gt (hafter e he)
  change m.entries.filter _ = _
  rw [h, List.filter_append, List.filter_cons_of_neg (by simp), hleft, hright]

end Place

/-- A new key adds one entry. -/
theorem length_insert (h : m.find? k = none) :
    (m.insert k a).entries.length = m.entries.length + 1 := by
  obtain ⟨before, after, hplace, hbefore, hafter⟩ := exists_place m.sorted k
  rcases hafter with ⟨a', rest, rfl, -⟩ | hafter
  · rw [find?_of_mem hbefore hplace] at h
    cases h
  · rw [entries_insert hbefore hafter hplace, hplace, List.length_append, List.length_append,
      List.length_cons, Nat.add_assoc]

theorem erase_of_not_mem (h : m.find? k = none) : m.erase k = m := by
  apply ext_entries
  change m.entries.filter _ = m.entries
  rw [List.filter_eq_self]
  intro e he
  have := List.find?_eq_none.mp (Option.map_eq_none_iff.mp h) e he
  simpa using this

/-- A key that is there takes one entry away. -/
theorem length_erase (h : m.find? k ≠ none) :
    m.entries.length = (m.erase k).entries.length + 1 := by
  obtain ⟨before, after, hplace, hbefore, hafter⟩ := exists_place m.sorted k
  rcases hafter with ⟨a, rest, rfl, hrest⟩ | hafter
  · rw [entries_erase hbefore hrest hplace, hplace, List.length_append, List.length_append,
      List.length_cons, Nat.add_assoc]
  · exact absurd (find?_of_not_mem hbefore hafter hplace) h

/-! ## Lookup after an update -/

theorem find?_eq_some_iff : m.find? k = some a ↔ (k, a) ∈ m.entries := by
  obtain ⟨before, after, hplace, hbefore, hafter⟩ := exists_place m.sorted k
  have hnot : ∀ e ∈ before, e ≠ (k, a) := fun e he heq => ne_of_lt (hbefore e he) (by rw [heq])
  rcases hafter with ⟨a', rest, rfl, hrest⟩ | hafter
  · have hrest : (k, a) ∉ rest := fun h => lt_irrefl k (hrest _ h)
    have hbefore' : (k, a) ∉ before := fun h => hnot _ h rfl
    rw [find?_of_mem hbefore hplace, hplace, Option.some_inj]
    simp [hrest, hbefore', eq_comm]
  · have hnone := find?_of_not_mem hbefore hafter hplace
    rw [hnone, hplace]
    refine ⟨nofun, fun h => ?_⟩
    rcases List.mem_append.mp h with h | h
    · exact absurd rfl (hnot _ h)
    · exact absurd (hafter _ h) (lt_irrefl k)

theorem find?_insert {j : κ} :
    (m.insert k a).find? j = if j = k then some a else m.find? j := by
  ext b
  have hmem : (j, b) ∈ (m.insert k a).entries ↔
      (j, b) ∈ m.entries ∧ j ≠ k ∨ j = k ∧ b = a := by
    change (j, b) ∈ m.entries.filter _ ++ (k, a) :: m.entries.filter _ ↔ _
    simp only [List.mem_append, List.mem_cons, List.mem_filter, decide_eq_true_eq, Prod.mk.injEq]
    constructor
    · rintro (⟨h, hlt⟩ | h | ⟨h, hlt⟩)
      · exact .inl ⟨h, ne_of_lt hlt⟩
      · exact .inr h
      · exact .inl ⟨h, ne_of_gt hlt⟩
    · rintro (⟨h, hne⟩ | h)
      · rcases lt_or_gt_of_ne hne with hlt | hlt
        · exact .inl ⟨h, hlt⟩
        · exact .inr (.inr ⟨h, hlt⟩)
      · exact .inr (.inl h)
  rw [find?_eq_some_iff, hmem, ← find?_eq_some_iff]
  by_cases h : j = k
  · simp [h, eq_comm]
  · simp [h]

theorem find?_erase {j : κ} : (m.erase k).find? j = if j = k then none else m.find? j := by
  ext b
  have hmem : (j, b) ∈ (m.erase k).entries ↔ (j, b) ∈ m.entries ∧ j ≠ k := by
    change (j, b) ∈ m.entries.filter _ ↔ _
    simp
  rw [find?_eq_some_iff, hmem, ← find?_eq_some_iff]
  by_cases h : j = k <;> simp [h]

end OrderedMap
end CwDb.Foundation
