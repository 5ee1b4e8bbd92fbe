/-
  Foundation/ByteReader.lean --- reading a byte stream from its front.

  A reader takes bytes off the input and may change a state of its own.  `Reads m bytes a t t'`
  says that `m` takes exactly `bytes`, whatever follows them; readers compose as their bytes do.
-/
import CwDb.Foundation.Effect
import CwDb.Foundation.Scalar

set_option autoImplicit false

namespace CwDb.Foundation

/-- A computation on an input and a state. -/
abbrev ByteReader (ε τ α : Type) : Type := EStateM ε (List UInt8 × τ) α

namespace ByteReader

variable {ε τ α β : Type}

/-- Reads one scalar; too short an input is used up. -/
def scalar [Scalar α] (short : ε) : ByteReader ε τ α := fun (input, t) =>
  if input.length < Scalar.width α then .error short ([], t)
  else .ok (Scalar.decode (input.take (Scalar.width α))) (input.drop (Scalar.width α), t)

/-- Reads into a zeroed buffer of `n` bytes. -/
def buffer (n : Nat) : ByteReader ε τ (List UInt8) := fun (input, t) =>
  let got := input.take n
  .ok (got ++ List.replicate (n - got.length) 0) (input.drop n, t)

/-- A computation on the state. -/
def state (f : τ → α × τ) : ByteReader ε τ α := fun (input, t) =>
  .ok (f t).1 (input, (f t).2)

/-- A counted loop. -/
def times : (n : Nat) → ByteReader ε τ α → ByteReader ε τ (List α)
  | 0, _ => pure []
  | n + 1, m => do
      let a ← m
      let rest ← times n m
      pure (a :: rest)

/-- `m` takes the bytes, returns `a` and changes the state from `t` to `t'`. -/
def Reads (m : ByteReader ε τ α) (bytes : List UInt8) (a : α) (t t' : τ) : Prop :=
  ∀ rest, m (bytes ++ rest, t) = .ok a (rest, t')

variable {m : ByteReader ε τ α} {f : α → ByteReader ε τ β} {bytes bytes' : List UInt8} {a : α}
  {b : β} {t t' t'' : τ}

theorem reads_pure (a : α) (t : τ) : Reads (pure a : ByteReader ε τ α) [] a t t := fun _ => rfl

theorem Reads.bind (h : Reads m bytes a t t') (h' : Reads (f a) bytes' b t' t'') :
    Reads (m >>= f) (bytes ++ bytes') b t t'' := by
  intro rest
  rw [List.append_assoc, bind_ok (h (bytes' ++ rest))]
  exact h' rest

/-- A reader that takes nothing, before another one. -/
theorem Reads.bind_nil (h : Reads m [] a t t') (h' : Reads (f a) bytes' b t' t'') :
    Reads (m >>= f) bytes' b t t'' := h.bind h'

/-- A reader before one that takes nothing. -/
theorem Reads.bind_last (h : Reads m bytes a t t') (h' : Reads (f a) [] b t' t'') :
    Reads (m >>= f) bytes b t t'' := by
  have := h.bind h'
  rwa [List.append_nil] at this

theorem reads_scalar [Scalar α] (a : α) (short : ε) (t : τ) :
    Reads (scalar short) (Scalar.encode a) a t t := by
  intro rest
  unfold scalar
  have hlength : (Scalar.encode a).length = Scalar.width α := Scalar.length_encode a
  have htake : (Scalar.encode a ++ rest).take (Scalar.width α) = Scalar.encode a := by
    rw [← hlength, List.take_left]
  have hdrop : (Scalar.encode a ++ rest).drop (Scalar.width α) = rest := by
    rw [← hlength, List.drop_left]
  dsimp only
  rw [if_neg (by rw [List.length_append]; omega), htake, hdrop, Scalar.decode_encode]

theorem reads_buffer (s : List UInt8) (t : τ) :
    Reads (buffer s.length : ByteReader ε τ (List UInt8)) s s t t := by
  intro rest
  unfold buffer
  dsimp only
  rw [List.take_left, List.drop_left, Nat.sub_self, List.replicate_zero, List.append_nil]

theorem reads_state (f : τ → α × τ) (t : τ) :
    Reads (state f : ByteReader ε τ α) [] (f t).1 t (f t).2 := fun _ => rfl

theorem reads_fromExcept {result : Except ε α} (h : result = .ok a) (t : τ) :
    Reads (fromExcept result : ByteReader ε τ α) [] a t t := by
  intro rest
  rw [h]
  rfl

/-- A loop over the encodings of a list, which leaves the state alone. -/
theorem reads_times {encode : β → List UInt8} {value : β → α} {m : ByteReader ε τ α}
    {xs : List β} (t : τ) (each : ∀ x ∈ xs, Reads m (encode x) (value x) t t) :
    Reads (times xs.length m) (xs.flatMap encode) (xs.map value) t t := by
  induction xs with
  | nil => exact reads_pure [] t
  | cons x xs ih =>
      have hrest := ih fun y hy => each y (List.mem_cons_of_mem x hy)
      rw [List.flatMap_cons, List.map_cons]
      exact (each x List.mem_cons_self).bind (hrest.bind_last (reads_pure _ t))

end ByteReader
end CwDb.Foundation
