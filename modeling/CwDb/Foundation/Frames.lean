/-
  Foundation/Frames.lean --- messages behind their lengths, over a pipe of bytes.

  A read asks for an exact number of bytes and waits until so many have arrived; how the
  bytes of a write are cut up on their way does not matter.
-/
import CwDb.Foundation.Scalar

set_option autoImplicit false

namespace CwDb.Foundation.Framing

/-! ## Pipes -/

/-- What has been written and not read: bytes that have arrived, and bytes in flight. -/
structure Pipe where
  arrived : List UInt8 := []
  inFlight : List UInt8 := []
  deriving DecidableEq

namespace Pipe

/-- All bytes, in order. -/
def bytes (p : Pipe) : List UInt8 := p.arrived ++ p.inFlight

def write (p : Pipe) (bytes : List UInt8) : Pipe := { p with inFlight := p.inFlight ++ bytes }

/-- Some of the bytes in flight arrive. -/
def deliver (p : Pipe) (n : Nat) : Pipe :=
  ⟨p.arrived ++ p.inFlight.take n, p.inFlight.drop n⟩

/-- The connection breaks: what is in flight behind the first bytes is lost. -/
def cut (p : Pipe) (n : Nat) : Pipe := { p with inFlight := p.inFlight.take n }

/-- A read of so many bytes. -/
def read (p : Pipe) (n : Nat) : Option (List UInt8 × Pipe) :=
  if n ≤ p.arrived.length then some (p.arrived.take n, { p with arrived := p.arrived.drop n })
  else none

variable {p p' : Pipe} {n : Nat} {bytes : List UInt8}

@[simp] theorem bytes_write : (p.write bytes).bytes = p.bytes ++ bytes :=
  (List.append_assoc _ _ _).symm

@[simp] theorem bytes_deliver : (p.deliver n).bytes = p.bytes := by
  rw [deliver, Pipe.bytes, Pipe.bytes, List.append_assoc, List.take_append_drop]

theorem bytes_cut_isPrefix : (p.cut n).bytes <+: p.bytes :=
  (List.prefix_append_right_inj p.arrived).mpr (List.take_prefix n p.inFlight)

theorem read_eq_some (h : p.read n = some (bytes, p')) :
    p.bytes = bytes ++ p'.bytes ∧ bytes.length = n := by
  unfold read at h
  split at h
  · next hn =>
      obtain ⟨rfl, rfl⟩ := Prod.mk.inj (Option.some.inj h)
      refine ⟨?_, List.length_take_of_le hn⟩
      rw [Pipe.bytes, Pipe.bytes, ← List.append_assoc, List.take_append_drop]
  · cases h

end Pipe

/-! ## Frames -/

/-- The four bytes that say how long a message is. -/
def sizeBytes (message : List UInt8) : List UInt8 :=
  Scalar.encode (UInt32.ofNat message.length)

def frame (message : List UInt8) : List UInt8 := sizeBytes message ++ message

def frames (messages : List (List UInt8)) : List UInt8 := messages.flatMap frame

theorem frames_append (ms ms' : List (List UInt8)) : frames (ms ++ ms') = frames ms ++ frames ms' :=
  List.flatMap_append

theorem frames_singleton (m : List UInt8) : frames [m] = frame m := List.flatMap_singleton frame m

@[simp] theorem length_sizeBytes (m : List UInt8) : (sizeBytes m).length = 4 :=
  Scalar.length_encode _

/-- Where a reader of frames is: before a size, or before a message of so many bytes. -/
inductive Awaited where
  | size
  | message (size : UInt32)
  deriving DecidableEq

/-- The bytes between the reader and the end of the messages. -/
def unread : Awaited → List (List UInt8) → List UInt8
  | .size, ms => frames ms
  | .message _, [] => []
  | .message _, m :: ms => m ++ frames ms

/-- The reader has the messages ahead of it, but for bytes that are lost at their end; it
knows the size of the first one when it is before it. -/
structure Awaits (awaited : Awaited) (p : Pipe) (ms : List (List UInt8)) : Prop where
  bytes : p.bytes <+: unread awaited ms
  size : ∀ n, awaited = .message n → ∃ m, ms.head? = some m ∧ n = UInt32.ofNat m.length

/-- Nothing is lost. -/
def Whole (awaited : Awaited) (p : Pipe) (ms : List (List UInt8)) : Prop :=
  p.bytes = unread awaited ms

variable {awaited : Awaited} {p p' : Pipe} {ms : List (List UInt8)} {n : Nat}
  {bytes m : List UInt8}

theorem Awaits.congr (r : Awaits awaited p ms) (same : p'.bytes <+: p.bytes) :
    Awaits awaited p' ms :=
  ⟨same.trans r.bytes, r.size⟩

theorem unread_append (known : ∀ n, awaited = .message n → ms ≠ []) (m : List UInt8) :
    unread awaited (ms ++ [m]) = unread awaited ms ++ frame m := by
  cases awaited with
  | size => rw [unread, unread, frames_append, frames_singleton]
  | message n =>
      cases ms with
      | nil => exact absurd rfl (known n rfl)
      | cons m' ms =>
          rw [List.cons_append, unread, unread, frames_append, frames_singleton, List.append_assoc]

theorem Awaits.ne_nil (r : Awaits awaited p ms) {size : UInt32} (h : awaited = .message size) :
    ms ≠ [] := by
  obtain ⟨m, hm, -⟩ := r.size size h
  rintro rfl
  cases hm

/-- A frame is written behind the others. -/
theorem Awaits.write (r : Awaits awaited p ms) (whole : Whole awaited p ms) (m : List UInt8) :
    Awaits awaited (p.write (frame m)) (ms ++ [m]) ∧
      Whole awaited (p.write (frame m)) (ms ++ [m]) := by
  have hbytes : (p.write (frame m)).bytes = unread awaited (ms ++ [m]) := by
    rw [Pipe.bytes_write, whole, unread_append fun n => r.ne_nil]
  refine ⟨⟨hbytes ▸ List.prefix_rfl, fun n h => ?_⟩, hbytes⟩
  obtain ⟨m', hm', hn⟩ := r.size n h
  exact ⟨m', by rw [List.head?_append, hm']; rfl, hn⟩

/-- The size of the first message is read. -/
theorem Awaits.read_size (r : Awaits .size p ms) (read : p.read 4 = some (bytes, p')) :
    Awaits (.message (Scalar.decode bytes)) p' ms ∧
      (Whole .size p ms → Whole (.message (Scalar.decode bytes)) p' ms) := by
  obtain ⟨hbytes, hlength⟩ := Pipe.read_eq_some read
  have hprefix := r.bytes
  cases ms with
  | nil =>
      rw [hbytes] at hprefix
      have hnil := List.prefix_nil.mp hprefix
      rw [(List.append_eq_nil_iff.mp hnil).1] at hlength
      cases hlength
  | cons m ms =>
      have hahead : unread .size (m :: ms) = sizeBytes m ++ (m ++ frames ms) := by
        rw [unread, frames, List.flatMap_cons, frame, List.append_assoc]
        rfl
      rw [hbytes, hahead] at hprefix
      obtain ⟨lost, hlost⟩ := hprefix
      rw [List.append_assoc] at hlost
      obtain ⟨hsize, hrest⟩ := List.append_inj hlost (by rw [hlength, length_sizeBytes])
      have hdecode : (Scalar.decode bytes : UInt32) = UInt32.ofNat m.length := by
        rw [hsize, sizeBytes, Scalar.decode_encode]
      refine ⟨⟨⟨lost, hrest⟩, fun n h => ⟨m, rfl, ?_⟩⟩, fun whole => ?_⟩
      · cases h
        exact hdecode
      · rw [Whole, hbytes, hahead, hsize] at whole
        exact List.append_cancel_left whole

/-- A message is read. -/
theorem Awaits.read_message {size : UInt32} (r : Awaits (.message size) p ms)
    (short : ∀ m ∈ ms, m.length < 2 ^ 32) (read : p.read size.toNat = some (bytes, p')) :
    ∃ rest, ms = bytes :: rest ∧ Awaits .size p' rest ∧
      (Whole (.message size) p ms → Whole .size p' rest) := by
  obtain ⟨hbytes, hlength⟩ := Pipe.read_eq_some read
  obtain ⟨m, hm, hsize⟩ := r.size size rfl
  obtain ⟨rest, rfl⟩ := List.head?_eq_some_iff.mp hm
  have hshort := short m List.mem_cons_self
  have hlen : bytes.length = m.length := by
    rw [hlength, hsize, UInt32.toNat_ofNat', Nat.mod_eq_of_lt hshort]
  obtain ⟨lost, hlost⟩ := r.bytes
  rw [hbytes, unread, List.append_assoc] at hlost
  obtain ⟨rfl, hrest⟩ := List.append_inj hlost hlen
  refine ⟨rest, rfl, ⟨⟨lost, hrest⟩, nofun⟩, fun whole => ?_⟩
  rw [Whole, hbytes, unread] at whole
  exact List.append_cancel_left whole

/-! ## A direction of a connection -/

/-- Of the messages that were written the pipe carries those that were not read, all of their
bytes as long as the writer goes on writing. -/
structure Carries (awaited : Awaited) (p : Pipe) (written read : List (List UInt8))
    (writes : Prop) : Prop where
  pending : ∃ ms, written = read ++ ms ∧ Awaits awaited p ms ∧ (writes → Whole awaited p ms)

namespace Carries

variable {written read : List (List UInt8)} {writes writes' : Prop}

theorem start : Carries .size {} [] [] writes :=
  ⟨[], rfl, ⟨List.prefix_rfl, nofun⟩, fun _ => rfl⟩

theorem isPrefix (c : Carries awaited p written read writes) : read <+: written := by
  obtain ⟨ms, rfl, -⟩ := c.pending
  exact List.prefix_append read ms

theorem mono (c : Carries awaited p written read writes) (fewer : writes' → writes) :
    Carries awaited p written read writes' := by
  obtain ⟨ms, hms, hawaits, hwhole⟩ := c.pending
  exact ⟨ms, hms, hawaits, fun h => hwhole (fewer h)⟩

theorem deliver (c : Carries awaited p written read writes) (n : Nat) :
    Carries awaited (p.deliver n) written read writes := by
  obtain ⟨ms, hms, hawaits, hwhole⟩ := c.pending
  refine ⟨ms, hms, hawaits.congr ⟨[], by simp⟩, fun h => ?_⟩
  rw [Whole, Pipe.bytes_deliver]
  exact hwhole h

/-- The writer stops, and some of what it has written is lost. -/
theorem cut (c : Carries awaited p written read writes) (n : Nat) (stopped : ¬ writes') :
    Carries awaited (p.cut n) written read writes' := by
  obtain ⟨ms, hms, hawaits, -⟩ := c.pending
  exact ⟨ms, hms, hawaits.congr Pipe.bytes_cut_isPrefix, fun h => absurd h stopped⟩

theorem write (c : Carries awaited p written read writes) (h : writes) (m : List UInt8) :
    Carries awaited (p.write (frame m)) (written ++ [m]) read writes := by
  obtain ⟨ms, rfl, hawaits, hwhole⟩ := c.pending
  obtain ⟨hawaits', hwhole'⟩ := hawaits.write (hwhole h) m
  exact ⟨ms ++ [m], List.append_assoc _ _ _, hawaits', fun _ => hwhole'⟩

theorem read_size (c : Carries .size p written read writes)
    (hread : p.read 4 = some (bytes, p')) :
    Carries (.message (Scalar.decode bytes)) p' written read writes := by
  obtain ⟨ms, hms, hawaits, hwhole⟩ := c.pending
  obtain ⟨hawaits', hwhole'⟩ := hawaits.read_size hread
  exact ⟨ms, hms, hawaits', fun h => hwhole' (hwhole h)⟩

theorem read_message {size : UInt32} (c : Carries (.message size) p written read writes)
    (short : ∀ m ∈ written, m.length < 2 ^ 32) (hread : p.read size.toNat = some (bytes, p')) :
    Carries .size p' written (read ++ [bytes]) writes := by
  obtain ⟨ms, rfl, hawaits, hwhole⟩ := c.pending
  obtain ⟨rest, rfl, hawaits', hwhole'⟩ :=
    hawaits.read_message (fun m hm => short m (List.mem_append_right _ hm)) hread
  exact ⟨rest, by simp, hawaits', fun h => hwhole' (hwhole h)⟩

end Carries
end CwDb.Foundation.Framing
