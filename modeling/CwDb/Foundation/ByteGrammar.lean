/-
  Foundation/ByteGrammar.lean --- readers that take exactly the texts of a grammar.

  `Parses m G` says what a reader accepts and what it makes of it, both ways; the rules
  follow the reader.  A buffer may be cut short by the end of the input, and so it is
  exact only before a reader that needs more input.
-/
import CwDb.Foundation.ByteReader

set_option autoImplicit false

namespace CwDb.Foundation

/-- Which bytes stand for which value, and what reading them does to the state. -/
abbrev Grammar (τ α : Type) : Type := List UInt8 → α → τ → τ → Prop

namespace ByteReader

variable {ε τ α β : Type}

/-- The reader takes what the grammar derives, whatever follows, and nothing else. -/
def Parses (m : ByteReader ε τ α) (G : Grammar τ α) : Prop :=
  ∀ input t a rest t', m (input, t) = .ok a (rest, t') ↔
    ∃ bytes, input = bytes ++ rest ∧ G bytes a t t'

/-- The reader needs input. -/
def NeedsInput (m : ByteReader ε τ α) : Prop := ∀ t a s, m ([], t) ≠ .ok a s

variable {m : ByteReader ε τ α} {f : α → ByteReader ε τ β} {G : Grammar τ α}
  {H : α → Grammar τ β}

theorem Parses.reads (parses : Parses m G) {bytes : List UInt8} {a : α} {t t' : τ}
    (h : G bytes a t t') : Reads m bytes a t t' :=
  fun rest => (parses _ t a rest t').mpr ⟨bytes, rfl, h⟩

theorem Parses.congr (parses : Parses m G) {G' : Grammar τ α}
    (same : ∀ bytes a t t', G bytes a t t' ↔ G' bytes a t t') : Parses m G' := by
  intro input t a rest t'
  rw [parses input t a rest t']
  simp only [same]

theorem parses_pure (a : α) :
    Parses (pure a : ByteReader ε τ α) fun bytes b t t' => bytes = [] ∧ b = a ∧ t' = t := by
  intro input t b rest t'
  constructor
  · intro h
    cases h
    exact ⟨[], rfl, rfl, rfl, rfl⟩
  · rintro ⟨bytes, rfl, rfl, rfl, rfl⟩
    rfl

theorem parses_throw (e : ε) :
    Parses (throw e : ByteReader ε τ α) fun _ _ _ _ => False := by
  intro input t a rest t'
  constructor
  · intro h
    cases h
  · rintro ⟨-, -, h⟩
    exact h.elim

theorem Parses.bind (parses : Parses m G) (next : ∀ a, Parses (f a) (H a)) :
    Parses (m >>= f) fun bytes b t t' =>
      ∃ u v a t₁, bytes = u ++ v ∧ G u a t t₁ ∧ H a v b t₁ t' := by
  intro input t b rest t'
  rw [bind_eq_ok]
  constructor
  · rintro ⟨a, ⟨middle, t₁⟩, hm, hf⟩
    obtain ⟨u, rfl, hu⟩ := (parses _ _ _ _ _).mp hm
    obtain ⟨v, rfl, hv⟩ := (next a _ _ _ _ _).mp hf
    exact ⟨u ++ v, (List.append_assoc u v rest).symm, u, v, a, t₁, rfl, hu, hv⟩
  · rintro ⟨bytes, rfl, u, v, a, t₁, rfl, hu, hv⟩
    exact ⟨a, (v ++ rest, t₁), (parses _ _ _ _ _).mpr ⟨u, List.append_assoc u v rest, hu⟩,
      (next a _ _ _ _ _).mpr ⟨v, rfl, hv⟩⟩

theorem Parses.ite {c : Prop} [Decidable c] {m' : ByteReader ε τ α} {G' : Grammar τ α}
    (yes : c → Parses m G) (no : ¬ c → Parses m' G') : Parses (if c then m else m')
      fun bytes a t t' => (c ∧ G bytes a t t') ∨ (¬ c ∧ G' bytes a t t') := by
  by_cases h : c
  · rw [if_pos h]
    exact (yes h).congr fun _ _ _ _ => by simp [h]
  · rw [if_neg h]
    exact (no h).congr fun _ _ _ _ => by simp [h]

theorem parses_scalar [ExactScalar α] (short : ε) :
    Parses (scalar short : ByteReader ε τ α)
      fun bytes a t t' => bytes = Scalar.encode a ∧ t' = t := by
  intro input t a rest t'
  constructor
  · intro h
    unfold scalar at h
    dsimp only at h
    split at h
    · cases h
    · next hlong =>
        cases h
        have hlength : (input.take (Scalar.width α)).length = Scalar.width α := by
          rw [List.length_take]
          omega
        refine ⟨input.take (Scalar.width α), (List.take_append_drop _ _).symm, ?_, rfl⟩
        exact (Scalar.encode_decode hlength).symm
  · rintro ⟨bytes, rfl, rfl, rfl⟩
    exact reads_scalar a short t' rest

theorem needsInput_scalar_bind [Scalar α] (positive : 0 < Scalar.width α) (short : ε)
    (f : α → ByteReader ε τ β) : NeedsInput (scalar short >>= f) := by
  intro t b s h
  obtain ⟨a, s₁, hscalar, -⟩ := bind_eq_ok.mp h
  unfold scalar at hscalar
  dsimp only at hscalar
  rw [if_pos (by simpa using positive)] at hscalar
  cases hscalar

theorem parses_state (f : τ → α × τ) :
    Parses (state f : ByteReader ε τ α)
      fun bytes a t t' => bytes = [] ∧ a = (f t).1 ∧ t' = (f t).2 := by
  intro input t a rest t'
  constructor
  · intro h
    cases h
    exact ⟨[], rfl, rfl, rfl, rfl⟩
  · rintro ⟨bytes, rfl, rfl, rfl, rfl⟩
    rfl

theorem parses_fromExcept (x : Except ε α) :
    Parses (fromExcept x : ByteReader ε τ α)
      fun bytes a t t' => bytes = [] ∧ x = .ok a ∧ t' = t := by
  intro input t a rest t'
  rw [fromExcept_eq_ok]
  constructor
  · rintro ⟨hx, hstate⟩
    cases hstate
    exact ⟨[], rfl, rfl, hx, rfl⟩
  · rintro ⟨bytes, rfl, rfl, hx, rfl⟩
    exact ⟨hx, rfl⟩

/-- A buffer that is followed by more input has been filled. -/
theorem Parses.buffer_bind {n : Nat} {f : List UInt8 → ByteReader ε τ β}
    {H : List UInt8 → Grammar τ β} (more : ∀ s, NeedsInput (f s))
    (next : ∀ s, Parses (f s) (H s)) : Parses (buffer n >>= f) fun bytes b t t' =>
      ∃ u v, bytes = u ++ v ∧ u.length = n ∧ H u v b t t' := by
  intro input t b rest t'
  rw [bind_eq_ok]
  constructor
  · rintro ⟨s, ⟨middle, t₁⟩, hbuffer, hf⟩
    unfold buffer at hbuffer
    dsimp only at hbuffer
    cases hbuffer
    have hlong : n ≤ input.length := by
      by_contra hshort
      rw [List.drop_of_length_le (by omega)] at hf
      exact more _ _ _ _ hf
    have hlength : (input.take n).length = n := by
      rw [List.length_take]
      omega
    rw [hlength, Nat.sub_self, List.replicate_zero, List.append_nil] at hf
    obtain ⟨v, hv, hH⟩ := (next _ _ _ _ _ _).mp hf
    refine ⟨input.take n ++ v, ?_, input.take n, v, rfl, hlength, hH⟩
    rw [List.append_assoc, ← hv, List.take_append_drop]
  · rintro ⟨bytes, rfl, u, v, rfl, rfl, hH⟩
    refine ⟨u, (v ++ rest, t), ?_, (next u _ _ _ _ _).mpr ⟨v, rfl, hH⟩⟩
    rw [List.append_assoc]
    exact reads_buffer u t (v ++ rest)

/-- The texts of a list, one after another. -/
inductive ListBytes (G : List UInt8 → α → Prop) : List UInt8 → List α → Prop where
  | nil : ListBytes G [] []
  | cons {u v : List UInt8} {a : α} {as : List α} (head : G u a) (tail : ListBytes G v as) :
      ListBytes G (u ++ v) (a :: as)

theorem ListBytes.exists_of_mem {G : List UInt8 → α → Prop} {bytes : List UInt8} {as : List α}
    (h : ListBytes G bytes as) {a : α} (mem : a ∈ as) : ∃ u, G u a := by
  induction h with
  | nil => cases mem
  | cons head tail ih =>
      rcases List.mem_cons.mp mem with rfl | mem
      · exact ⟨_, head⟩
      · exact ih mem

/-- A list of what a function makes of other things. -/
theorem listBytes_map {G : List UInt8 → α → Prop} {P : α → Prop} {g : α → β} {bytes : List UInt8}
    {bs : List β} : ListBytes (fun u b => ∃ a, G u a ∧ P a ∧ b = g a) bytes bs ↔
      ∃ as, ListBytes G bytes as ∧ (∀ a ∈ as, P a) ∧ bs = as.map g := by
  constructor
  · intro h
    induction h with
    | nil => exact ⟨[], .nil, nofun, rfl⟩
    | cons head tail ih =>
        obtain ⟨a, ha, hP, rfl⟩ := head
        obtain ⟨as, has, hPs, rfl⟩ := ih
        exact ⟨a :: as, .cons ha has, List.forall_mem_cons.mpr ⟨hP, hPs⟩, rfl⟩
  · rintro ⟨as, h, hP, rfl⟩
    induction h with
    | nil => exact .nil
    | cons head tail ih =>
        obtain ⟨ha, has⟩ := List.forall_mem_cons.mp hP
        exact .cons ⟨_, head, ha, rfl⟩ (ih has)

/-- A loop whose body leaves the state alone. -/
theorem Parses.times {G : List UInt8 → α → Prop}
    (parses : Parses m fun bytes a t t' => G bytes a ∧ t' = t) (n : Nat) :
    Parses (times n m) fun bytes as t t' => (as.length = n ∧ ListBytes G bytes as) ∧ t' = t := by
  induction n with
  | zero =>
      refine (parses_pure []).congr fun bytes as t t' => ⟨?_, ?_⟩
      · rintro ⟨rfl, rfl, rfl⟩
        exact ⟨⟨rfl, .nil⟩, rfl⟩
      · rintro ⟨⟨hlength, hlist⟩, rfl⟩
        cases hlist with
        | nil => exact ⟨rfl, rfl, rfl⟩
        | cons => cases hlength
  | succ n ih =>
      refine (parses.bind fun a => ih.bind fun as => parses_pure (a :: as)).congr
        fun bytes as t t' => ⟨?_, ?_⟩
      · rintro ⟨u, v, a, t₁, rfl, ⟨hu, rfl⟩, v', w, rest, t₂, rfl, ⟨⟨rfl, hv⟩, rfl⟩, rfl, rfl, rfl⟩
        rw [List.append_nil]
        exact ⟨⟨rfl, .cons hu hv⟩, rfl⟩
      · rintro ⟨⟨hlength, hlist⟩, rfl⟩
        cases hlist with
        | nil => cases hlength
        | cons head tail =>
            exact ⟨_, _, _, _, rfl, ⟨head, rfl⟩, _, [], _, _, (List.append_nil _).symm,
              ⟨⟨Nat.succ.inj hlength, tail⟩, rfl⟩, rfl, rfl, rfl⟩

end ByteReader
end CwDb.Foundation
