/-
  Index/ReferenceMap.lean --- the answers of an index against a finite map of keys to records.

  Each operation is specified by what it has to answer and what the map is afterwards; how the
  map is kept, and in which order, is left open.
-/
import CwDb.Index.SearchDepth
import Mathlib.Data.Finset.Card
import Mathlib.Data.Set.Card

set_option autoImplicit false

namespace CwDb.Index

open CwDb.Cpp
open CwDb.Foundation

/-- A finite map, by the record that it has for each key. -/
abbrev Reference : Type := IndexKey → Option UInt64

namespace Reference

/-- The keys of the map from `low` to `high`, in ascending order. -/
structure Lists (M : Reference) (low high : IndexKey) (keys : List IndexKey) : Prop where
  ascending : keys.Pairwise (· < ·)
  between : ∀ key, key ∈ keys ↔ low ≤ key ∧ key ≤ high ∧ (M key).isSome = true

/-- What an operation on the map answers, and the map afterwards. -/
inductive AnsweredAs : Operation → Reference → Except Fault Answer → Reference → Prop
  | inserted {M : Reference} {key : IndexKey} {record : UInt64} (absent : M key = none) :
      AnsweredAs (.insert key record) M (.ok .inserted) (Function.update M key (some record))
  | duplicate {M : Reference} {key : IndexKey} {record old : UInt64} (present : M key = some old) :
      AnsweredAs (.insert key record) M
        (.error (.throws .invalidArgument (text "Duplicate index key"))) M
  | erased {M : Reference} {key : IndexKey} :
      AnsweredAs (.erase key) M (.ok (.erased (M key).isSome)) (Function.update M key none)
  | found {M : Reference} {key : IndexKey} :
      AnsweredAs (.find key) M (.ok (.record (M key))) M
  | listed {M : Reference} {low high : IndexKey} {keys : List IndexKey} {records : List UInt64}
      (lists : M.Lists low high keys) (recorded : keys.map M = records.map some) :
      AnsweredAs (.rangeSearch low high) M (.ok (.records records)) M
  | opened {M : Reference} {kind : IndexKeyKind} : AnsweredAs (.reopen kind) M (.ok .opened) M

/-- The answers to operations one after another. -/
inductive AnsweredAlong :
    List Operation → Reference → List (Except Fault Answer) → Reference → Prop
  | nil {M : Reference} : AnsweredAlong [] M [] M
  | cons {op : Operation} {ops : List Operation} {M M' M'' : Reference}
      {answer : Except Fault Answer} {answers : List (Except Fault Answer)}
      (first : AnsweredAs op M answer M') (rest : AnsweredAlong ops M' answers M'') :
      AnsweredAlong (op :: ops) M (answer :: answers) M''

variable {m : OrderedMap IndexKey UInt64}

/-- The keys that the ordered map lists. -/
theorem lists_range (low high : IndexKey) : ∃ keys, Lists m.find? low high keys ∧
    keys.map m.find? = (m.range low high).map some := by
  let entries := m.entries.filter fun e => low ≤ e.1 ∧ e.1 ≤ high
  have hentry : ∀ e, e ∈ entries ↔ e ∈ m.entries ∧ low ≤ e.1 ∧ e.1 ≤ high := fun e => by
    simp [entries]
  refine ⟨entries.map Prod.fst, ⟨?_, fun key => ?_⟩, ?_⟩
  · exact m.sorted.sublist (List.filter_sublist.map Prod.fst)
  · rw [List.mem_map]
    constructor
    · rintro ⟨e, he, rfl⟩
      obtain ⟨hmem, hlow, hhigh⟩ := (hentry e).mp he
      have hfind : m.find? e.1 = some e.2 := OrderedMap.find?_eq_some_iff.mpr hmem
      exact ⟨hlow, hhigh, by rw [hfind]; rfl⟩
    · rintro ⟨hlow, hhigh, hsome⟩
      obtain ⟨record, hfind⟩ := Option.isSome_iff_exists.mp hsome
      exact ⟨(key, record), (hentry _).mpr
        ⟨OrderedMap.find?_eq_some_iff.mp hfind, hlow, hhigh⟩, rfl⟩
  · change _ = (entries.map Prod.snd).map some
    rw [List.map_map, List.map_map]
    exact List.map_congr_left fun e he =>
      OrderedMap.find?_eq_some_iff.mpr ((hentry e).mp he).1

/-- An ordered map answers an operation as the map of its records. -/
theorem answeredAs_onMap (op : Operation) (m : OrderedMap IndexKey UInt64) :
    AnsweredAs op m.find? (op.onMap m).1 (op.onMap m).2.find? := by
  cases op with
  | insert key record =>
      rw [Operation.onMap]
      cases hfind : m.find? key with
      | some old => exact .duplicate hfind
      | none =>
          have hupdate : (m.insert key record).find? =
              Function.update m.find? key (some record) := by
            funext other
            rw [OrderedMap.find?_insert]
            by_cases hsame : other = key
            · rw [if_pos hsame, hsame, Function.update_self]
            · rw [if_neg hsame, Function.update_of_ne hsame]
          change AnsweredAs _ m.find? (.ok .inserted) (m.insert key record).find?
          rw [hupdate]
          exact .inserted hfind
  | erase key =>
      have hupdate : (m.erase key).find? = Function.update m.find? key none := by
        funext other
        rw [OrderedMap.find?_erase]
        by_cases hsame : other = key
        · rw [if_pos hsame, hsame, Function.update_self]
        · rw [if_neg hsame, Function.update_of_ne hsame]
      change AnsweredAs _ m.find? (.ok (.erased (m.find? key).isSome)) (m.erase key).find?
      rw [hupdate]
      exact .erased
  | find key => exact .found
  | rangeSearch low high =>
      obtain ⟨keys, hlists, hrecorded⟩ := lists_range (m := m) low high
      exact .listed hlists hrecorded
  | reopen kind => exact .opened

/-- So it does a run. -/
theorem answeredAlong_onMap : ∀ (ops : List Operation) (m : OrderedMap IndexKey UInt64),
    AnsweredAlong ops m.find? (runMachine Operation.onMap ops m).1
      (runMachine Operation.onMap ops m).2.find?
  | [], _ => .nil
  | op :: ops, m => .cons (answeredAs_onMap op m) (answeredAlong_onMap ops (op.onMap m).2)

/-- The size of an ordered map is the number of keys that have a record. -/
theorem ncard_keys (m : OrderedMap IndexKey UInt64) :
    {key | (m.find? key).isSome = true}.ncard = m.size := by
  have hkeys : {key | (m.find? key).isSome = true} = ((m.keys.toFinset : Finset IndexKey) :
      Set IndexKey) := by
    ext key
    change (m.find? key).isSome = true ↔ _
    rw [Option.isSome_iff_exists, Finset.mem_coe, List.mem_toFinset]
    constructor
    · rintro ⟨record, hfind⟩
      exact List.mem_map.mpr ⟨(key, record), OrderedMap.find?_eq_some_iff.mp hfind, rfl⟩
    · intro hkey
      obtain ⟨e, he, rfl⟩ := List.mem_map.mp hkey
      exact ⟨e.2, OrderedMap.find?_eq_some_iff.mpr he⟩
  have hnodup : m.keys.Nodup := m.sorted.imp fun hlt => ne_of_lt hlt
  rw [hkeys, Set.ncard_coe_finset, List.toFinset_card_of_nodup hnodup, OrderedMap.keys,
    List.length_map]
  rfl

end Reference

namespace BStarPlusIndex

/-- A new index answers any operations, with keys that it can store, as a finite map that is
empty at first, and its size is the number of keys of the map; the file has room all the
while. -/
theorem answers_as_reference {kind : IndexKeyKind} (proper : kind.Proper) (ops : List Operation)
    (admissible : ∀ op ∈ ops, op.Admissible kind)
    (room : StaysIn HasRoom Operation.onIndex ops (created kind)) :
    loadMetadata kind (onFile none) = .ok ⟨⟩ (created kind) ∧
      ∃ M : Reference,
        Reference.AnsweredAlong ops (fun _ => none)
          (runMachine Operation.onIndex ops (created kind)).1 M ∧
        (runMachine Operation.onIndex ops (created kind)).2.metadata.size.toNat =
          {key | (M key).isSome = true}.ncard := by
  obtain ⟨hanswers, hlast⟩ := mirrors_run proper admissible room
  refine ⟨loadMetadata_created proper, (runMachine Operation.onMap ops .empty).2.find?, ?_, ?_⟩
  · rw [hanswers]
    exact Reference.answeredAlong_onMap ops .empty
  · rw [Reference.ncard_keys]
    exact hlast.contents.size

/-- Two keys that come in descending order, one of them twice, and the index opened again. -/
private def mixedOperations : List Operation :=
  [.insert (.int 2) 7, .insert (.int 1) 8, .insert (.int 2) 9, .rangeSearch (.int 0) (.int 5),
    .erase (.int 2), .reopen .string, .find (.int 2), .find (.int 1)]

theorem answers_as_reference_of_mixed : ∃ M : Reference,
    Reference.AnsweredAlong mixedOperations (fun _ => none)
      [.ok .inserted, .ok .inserted,
        .error (.throws .invalidArgument (text "Duplicate index key")), .ok (.records [8, 7]),
        .ok (.erased true), .ok .opened, .ok (.record none), .ok (.record (some 8))] M ∧
    {key | (M key).isSome = true}.ncard = 1 := by
  have proper : IndexKeyKind.Proper .int64 := .inl rfl
  have admissible : ∀ op ∈ mixedOperations, op.Admissible .int64 := by
    intro op hop
    simp only [mixedOperations, List.mem_cons, List.not_mem_nil, or_false] at hop
    rcases hop with rfl | rfl | rfl | rfl | rfl | rfl | rfl | rfl
    all_goals first | exact rfl | exact trivial | exact ⟨rfl, rfl⟩
  have room := staysIn_hasRoom proper admissible (by decide)
  obtain ⟨hanswers, hlast⟩ := mirrors_run proper admissible room
  obtain ⟨-, M, hanswered, hsize⟩ := answers_as_reference proper mixedOperations admissible room
  refine ⟨M, ?_, hsize.symm.trans (hlast.contents.size.trans rfl)⟩
  rw [hanswers] at hanswered
  exact hanswered

end BStarPlusIndex
end CwDb.Index
