/-
  Foundation/UnorderedMap.lean --- finite maps with one entry for each key.

  `std::unordered_map` iterates in an order that it does not promise; the order of
  `entries` is one such order, and no result reads more from it than membership.
-/
import Mathlib.Data.List.Nodup

set_option autoImplicit false

namespace CwDb.Foundation

/-- Entries with pairwise distinct keys. -/
structure UnorderedMap (κ α : Type) where
  entries : List (κ × α)
  nodup : (entries.map Prod.fst).Nodup

namespace UnorderedMap

variable {κ α : Type}

/-- The map without entries. -/
def empty : UnorderedMap κ α := ⟨[], List.nodup_nil⟩

instance : Inhabited (UnorderedMap κ α) := ⟨empty⟩

def keys (m : UnorderedMap κ α) : List κ := m.entries.map Prod.fst

def size (m : UnorderedMap κ α) : Nat := m.entries.length

variable [DecidableEq κ]

/-- `find`. -/
def find? (m : UnorderedMap κ α) (k : κ) : Option α :=
  (m.entries.find? fun e => e.1 = k).map Prod.snd

/-- `find(k) != end()`. -/
def contains (m : UnorderedMap κ α) (k : κ) : Bool := (m.find? k).isSome

/-! ## Lookup is membership -/

variable {m : UnorderedMap κ α} {k j : κ} {a : α}

theorem find?_eq_some_iff : m.find? k = some a ↔ (k, a) ∈ m.entries := by
  constructor
  · intro h
    obtain ⟨e, he, rfl⟩ := Option.map_eq_some_iff.mp h
    have hkey : e.1 = k := by simpa using List.find?_some he
    have hmem := List.mem_of_find?_eq_some he
    rwa [← hkey]
  · intro h
    unfold find?
    cases hfound : m.entries.find? fun e => e.1 = k with
    | none => exact absurd (List.find?_eq_none.mp hfound _ h) (by simp)
    | some e =>
        have hkey : e.1 = k := by simpa using List.find?_some hfound
        have heq : e = (k, a) :=
          List.inj_on_of_nodup_map m.nodup (List.mem_of_find?_eq_some hfound) h hkey
        simp [heq]

theorem find?_eq_none_iff : m.find? k = none ↔ k ∉ m.keys := by
  constructor
  · intro h hk
    obtain ⟨e, he, rfl⟩ := List.mem_map.mp hk
    simp [find?_eq_some_iff.mpr (show (e.1, e.2) ∈ m.entries from he)] at h
  · intro h
    cases hfound : m.find? k with
    | none => rfl
    | some a =>
        exact absurd (List.mem_map_of_mem (f := Prod.fst) (find?_eq_some_iff.mp hfound)) h

theorem contains_eq_false_iff : m.contains k = false ↔ k ∉ m.keys := by
  rw [← find?_eq_none_iff, contains, Option.isSome_eq_false_iff, Option.isNone_iff_eq_none]

theorem mem_keys_iff : k ∈ m.keys ↔ ∃ a, m.find? k = some a := by
  rw [← Option.ne_none_iff_exists', Ne, find?_eq_none_iff, not_not]

@[simp] theorem find?_empty : (empty : UnorderedMap κ α).find? k = none := rfl

omit [DecidableEq κ] in
@[simp] theorem keys_empty : (empty : UnorderedMap κ α).keys = [] := rfl

/-! ## Updates -/

/-- `emplace`: an entry that is there stays. -/
def emplace (m : UnorderedMap κ α) (k : κ) (a : α) : UnorderedMap κ α :=
  if h : k ∈ m.keys then m
  else ⟨m.entries ++ [(k, a)], by
    rw [List.map_append, List.nodup_append]
    refine ⟨m.nodup, by simp, ?_⟩
    intro x hx y hy
    obtain rfl : y = k := by simpa using hy
    exact fun hxy => h (hxy ▸ hx)⟩

/-- The entry of `k` replaced, when there is one. -/
def replace (m : UnorderedMap κ α) (k : κ) (a : α) : UnorderedMap κ α :=
  ⟨m.entries.map fun e => if e.1 = k then (k, a) else e, by
    have hkeys : (m.entries.map fun e => if e.1 = k then (k, a) else e).map Prod.fst =
        m.entries.map Prod.fst := by
      rw [List.map_map]
      refine List.map_congr_left fun e _ => ?_
      by_cases h : e.1 = k <;> simp [h]
    rw [hkeys]
    exact m.nodup⟩

/-- `m[k] = a`. -/
def assign (m : UnorderedMap κ α) (k : κ) (a : α) : UnorderedMap κ α :=
  if m.contains k then m.replace k a else m.emplace k a

/-- `erase(k)`. -/
def erase (m : UnorderedMap κ α) (k : κ) : UnorderedMap κ α :=
  ⟨m.entries.filter fun e => e.1 ≠ k,
    m.nodup.sublist (List.filter_sublist.map Prod.fst)⟩

theorem entries_emplace_of_notMem (h : k ∉ m.keys) :
    (m.emplace k a).entries = m.entries ++ [(k, a)] := by
  rw [emplace, dif_neg h]

theorem emplace_of_mem (h : k ∈ m.keys) : m.emplace k a = m := by
  rw [emplace, dif_pos h]

@[simp] theorem keys_replace : (m.replace k a).keys = m.keys := by
  unfold keys replace
  rw [List.map_map]
  refine List.map_congr_left fun e _ => ?_
  by_cases h : e.1 = k <;> simp [h]

/-- Writing back what is there changes nothing. -/
theorem replace_self (h : m.find? k = some a) : m.replace k a = m := by
  have hentries : (m.entries.map fun e => if e.1 = k then (k, a) else e) = m.entries := by
    refine (List.map_congr_left fun e he => ?_).trans (List.map_id _)
    split
    · next hkey =>
        have hvalue := find?_eq_some_iff.mpr (show (e.1, e.2) ∈ m.entries from he)
        rw [hkey, h] at hvalue
        rw [Option.some.inj hvalue, ← hkey]
        rfl
    · rfl
  unfold replace
  congr 1

theorem find?_emplace : (m.emplace k a).find? j =
    if j = k then (m.find? k).or (some a) else m.find? j := by
  by_cases hk : k ∈ m.keys
  · rw [emplace_of_mem hk]
    obtain ⟨b, hb⟩ := mem_keys_iff.mp hk
    split
    · next h => rw [h, hb, Option.some_or]
    · rfl
  · have hnone := find?_eq_none_iff.mpr hk
    have happ : (m.emplace k a).find? j = (m.find? j).or (if k = j then some a else none) := by
      unfold find?
      rw [entries_emplace_of_notMem hk, List.find?_append, Option.map_or]
      by_cases h : k = j <;> simp [List.find?, h]
    rw [happ]
    by_cases h : j = k
    · simp [h, hnone]
    · simp [h, Ne.symm h]

theorem find?_replace : (m.replace k a).find? j =
    if j = k then (m.find? k).map fun _ => a else m.find? j := by
  have hpred : (fun e : κ × α => decide ((if e.1 = k then (k, a) else e).1 = j)) =
      fun e => decide (e.1 = j) := by
    funext e
    by_cases h : e.1 = k <;> simp [h]
  have hfind : (m.replace k a).find? j =
      ((m.entries.find? fun e => e.1 = j).map fun e => if e.1 = k then (k, a) else e).map
        Prod.snd := by
    unfold find? replace
    rw [List.find?_map]
    exact congrArg (fun p => ((m.entries.find? p).map _).map _) hpred
  rw [hfind]
  unfold find?
  cases hfound : m.entries.find? fun e => e.1 = j with
  | none =>
      by_cases h : j = k
      · simp [← h, hfound]
      · simp [h]
  | some e =>
      have hkey : e.1 = j := by simpa using List.find?_some hfound
      by_cases h : j = k
      · simp [← h, hfound, hkey]
      · simp [h, hkey]

theorem find?_assign : (m.assign k a).find? j = if j = k then some a else m.find? j := by
  unfold assign contains
  cases hk : m.find? k with
  | none => simp [find?_emplace, hk]
  | some b => simp [find?_replace, hk]

theorem find?_erase : (m.erase k).find? j = if j = k then none else m.find? j := by
  ext b
  have hmem : (j, b) ∈ (m.erase k).entries ↔ (j, b) ∈ m.entries ∧ j ≠ k := by
    simp [erase]
  rw [find?_eq_some_iff, hmem, ← find?_eq_some_iff]
  by_cases h : j = k <;> simp [h]

theorem mem_keys_emplace : j ∈ (m.emplace k a).keys ↔ j = k ∨ j ∈ m.keys := by
  rw [mem_keys_iff, find?_emplace, mem_keys_iff]
  by_cases h : j = k
  · cases hk : m.find? k <;> simp [h]
  · simp [h]

theorem mem_keys_erase : j ∈ (m.erase k).keys ↔ j ≠ k ∧ j ∈ m.keys := by
  rw [mem_keys_iff, find?_erase, mem_keys_iff]
  by_cases h : j = k <;> simp [h]

/-! ## All entries at once -/

/-- The entry with what `f` makes of its value. -/
def emplaceValue {ε β : Type} (f : κ → α → Except ε β) (made : UnorderedMap κ β) (e : κ × α) :
    Except ε (UnorderedMap κ β) := do
  let b ← f e.1 e.2
  pure (made.emplace e.1 b)

/-- The map of what `f` makes of the values, unless it fails for one of them. -/
def mapValuesM {ε β : Type} (f : κ → α → Except ε β) (m : UnorderedMap κ α) :
    Except ε (UnorderedMap κ β) :=
  m.entries.foldlM (emplaceValue f) empty

/-- The entries whose keys satisfy `p`. -/
def filterKeys (p : κ → Bool) (m : UnorderedMap κ α) : UnorderedMap κ α :=
  ⟨m.entries.filter fun e => p e.1, m.nodup.sublist (List.filter_sublist.map Prod.fst)⟩

/-- What `mapValuesM` has made of the entries behind it, whose keys are new. -/
private theorem find?_of_foldlM {ε β : Type} {f : κ → α → Except ε β} :
    ∀ (l : List (κ × α)) (made m' : UnorderedMap κ β), (l.map Prod.fst).Nodup →
      (∀ e ∈ l, made.find? e.1 = none) →
      l.foldlM (emplaceValue f) made = .ok m' →
      (∀ k ∉ l.map Prod.fst, m'.find? k = made.find? k) ∧
        ∀ e ∈ l, ∃ b, f e.1 e.2 = .ok b ∧ m'.find? e.1 = some b
  | [], made, m', _, _, h => by
      cases h
      exact ⟨fun _ _ => rfl, fun _ he => absurd he List.not_mem_nil⟩
  | (j, a) :: l, made, m', nodup, fresh, h => by
      rw [List.map_cons, List.nodup_cons] at nodup
      rw [List.foldlM_cons, emplaceValue] at h
      cases hf : f j a with
      | error e =>
          rw [hf] at h
          cases h
      | ok b =>
          rw [hf] at h
          have hnew : ∀ k, (made.emplace j b).find? k = if k = j then some b else made.find? k := by
            intro k
            rw [find?_emplace, fresh _ List.mem_cons_self, Option.none_or]
          have hfresh : ∀ e ∈ l, (made.emplace j b).find? e.1 = none := by
            intro e he
            rw [hnew, if_neg, fresh e (List.mem_cons_of_mem _ he)]
            intro heq
            have hmem := List.mem_map_of_mem (f := Prod.fst) he
            rw [heq] at hmem
            exact nodup.1 hmem
          obtain ⟨hothers, hall⟩ := find?_of_foldlM l (made.emplace j b) m' nodup.2 hfresh h
          refine ⟨fun k hk => ?_, fun e he => ?_⟩
          · rw [List.map_cons, List.mem_cons, not_or] at hk
            rw [hothers k hk.2, hnew, if_neg hk.1]
          · rcases List.mem_cons.mp he with rfl | he
            · refine ⟨b, hf, ?_⟩
              rw [hothers j nodup.1, hnew, if_pos rfl]
            · exact hall e he

theorem rel_mapValuesM {ε β : Type} {f : κ → α → Except ε β} {m' : UnorderedMap κ β}
    (h : m.mapValuesM f = .ok m') (k : κ) :
    Option.Rel (fun a b => f k a = .ok b) (m.find? k) (m'.find? k) := by
  obtain ⟨hothers, hall⟩ := find?_of_foldlM m.entries empty m' m.nodup (fun _ _ => rfl) h
  cases hk : m.find? k with
  | none =>
      rw [hothers k (find?_eq_none_iff.mp hk)]
      exact .none
  | some a =>
      obtain ⟨b, hb, hfound⟩ := hall (k, a) (find?_eq_some_iff.mp hk)
      rw [hfound]
      exact .some hb

theorem exists_mapValuesM {ε β : Type} {f : κ → α → Except ε β}
    (total : ∀ k a, m.find? k = some a → ∃ b, f k a = .ok b) : ∃ m', m.mapValuesM f = .ok m' := by
  have hall : ∀ (l : List (κ × α)) (made : UnorderedMap κ β),
      (∀ e ∈ l, ∃ b, f e.1 e.2 = .ok b) → ∃ m', l.foldlM (emplaceValue f) made = .ok m' := by
    intro l
    induction l with
    | nil => exact fun made _ => ⟨made, rfl⟩
    | cons e l ih =>
        intro made htotal
        obtain ⟨b, hb⟩ := htotal e List.mem_cons_self
        obtain ⟨m', hm'⟩ := ih (made.emplace e.1 b) fun e he => htotal e (List.mem_cons_of_mem _ he)
        refine ⟨m', ?_⟩
        rw [List.foldlM_cons, emplaceValue, hb]
        exact hm'
  exact hall m.entries empty fun e he => total e.1 e.2 (find?_eq_some_iff.mpr he)

theorem find?_filterKeys {p : κ → Bool} :
    (m.filterKeys p).find? k = if p k then m.find? k else none := by
  ext a
  have hmem : (k, a) ∈ (m.filterKeys p).entries ↔ (k, a) ∈ m.entries ∧ p k = true :=
    List.mem_filter
  rw [find?_eq_some_iff, hmem, ← find?_eq_some_iff]
  cases p k <;> simp

/-! ## Size -/

theorem size_erase (h : k ∈ m.keys) : (m.erase k).size + 1 = m.size := by
  obtain ⟨a, ha⟩ := mem_keys_iff.mp h
  obtain ⟨before, after, hsplit⟩ := List.append_of_mem (find?_eq_some_iff.mp ha)
  have hnodup := m.nodup
  rw [hsplit, List.map_append, List.map_cons, List.nodup_middle, List.nodup_cons] at hnodup
  have hother : ∀ e ∈ before ++ after, e.1 ≠ k := by
    intro e he hk
    have hmem := List.mem_map_of_mem (f := Prod.fst) he
    rw [hk, List.map_append] at hmem
    exact hnodup.1 hmem
  have hkeep : ∀ l : List (κ × α), (∀ e ∈ l, e.1 ≠ k) → (l.filter fun e => e.1 ≠ k) = l := by
    intro l hl
    exact List.filter_eq_self.mpr fun e he => by simpa using hl e he
  have hfilter : (m.entries.filter fun e => e.1 ≠ k) = before ++ after := by
    rw [hsplit, List.filter_append, List.filter_cons_of_neg (by simp),
      hkeep before fun e he => hother e (List.mem_append_left _ he),
      hkeep after fun e he => hother e (List.mem_append_right _ he)]
  change (m.entries.filter fun e => e.1 ≠ k).length + 1 = m.entries.length
  rw [hfilter, hsplit]
  simp only [List.length_append, List.length_cons]
  omega

theorem size_assign (h : k ∉ m.keys) : (m.assign k a).size = m.size + 1 := by
  unfold assign size
  rw [contains_eq_false_iff.mpr h, if_neg Bool.false_ne_true, entries_emplace_of_notMem h]
  simp

end UnorderedMap
end CwDb.Foundation
