/-
  Executor/RequestTypes.lean --- request ids and what a client is told of a request.

  `generateRequestId` takes its six draws as arguments, in the order it makes them.
  The pattern of `isValidRequestId` is a list of one class a byte, since every part of it
  has a fixed width.
-/
import CwDb.Cpp.Strings

set_option autoImplicit false

namespace CwDb.Executor

open CwDb.Cpp

/-- `using RequestId`. -/
abbrev RequestId : Type := ByteString

/-- `enum class RequestStatus`. -/
inductive RequestStatus where
  | pending
  | running
  | completed
  | failed
  deriving DecidableEq, Repr, Inhabited

/-- `toString(RequestStatus)`. -/
def RequestStatus.toText : RequestStatus → ByteString
  | pending => text "pending"
  | running => text "running"
  | completed => text "completed"
  | failed => text "failed"

/-- `struct RequestSnapshot`; a time point is a reading of the clock. -/
structure RequestSnapshot where
  id : RequestId := []
  status : RequestStatus := .pending
  result : Option ByteString := none
  error : Option ByteString := none
  submittedAt : Int := 0
  startedAt : Option Int := none
  finishedAt : Option Int := none
  deriving DecidableEq, Repr, Inhabited

/-- `struct RequestStatusInfo`. -/
structure RequestStatusInfo where
  id : RequestId
  status : RequestStatus := .pending
  submittedAt : Int := 0
  startedAt : Option Int := none
  finishedAt : Option Int := none
  queuePosition : Option Nat := none
  deriving DecidableEq, Repr, Inhabited

/-- `struct RequestResultInfo`. -/
structure RequestResultInfo where
  ready : Bool := false
  id : RequestId
  status : RequestStatus := .pending
  result : Option ByteString := none
  error : Option ByteString := none
  deriving DecidableEq, Repr, Inhabited

/-- `generateRequestId`. -/
def generateRequestId (draw₁ draw₂ draw₃ draw₄ draw₅ draw₆ : UInt32) : RequestId :=
  let timeLow := draw₁
  let timeMid := (draw₂ &&& 0xFFFF).toUInt16
  let timeHiAndVersion := ((draw₃ &&& 0x0FFF) ||| 0x4000).toUInt16
  let clockSeq := ((draw₄ &&& 0x3FFF) ||| 0x8000).toUInt16
  let nodeLow := draw₅
  let nodeHigh := (draw₆ &&& 0xFFFF).toUInt16
  formatHex 8 timeLow.toNat ++ text "-" ++ formatHex 4 timeMid.toNat ++ text "-" ++
    formatHex 4 timeHiAndVersion.toNat ++ text "-" ++ formatHex 4 clockSeq.toNat ++ text "-" ++
    formatHex 4 nodeHigh.toNat ++ formatHex 8 nodeLow.toNat

/-- Every byte is in the class at its place. -/
def matchesClasses : (classes : List (UInt8 → Bool)) → ByteString → Bool
  | [], [] => true
  | cls :: classes, c :: s => cls c && matchesClasses classes s
  | _, _ => false

/-- `[0-9a-f]{n}`. -/
def hexDigits (n : Nat) : List (UInt8 → Bool) := List.replicate n isHexLower

/-- The pattern of `isValidRequestId`. -/
def requestIdPattern : List (UInt8 → Bool) :=
  hexDigits 8 ++ [(· == 0x2d)] ++ hexDigits 4 ++ [(· == 0x2d)] ++
    ([(· == 0x34)] ++ hexDigits 3) ++ [(· == 0x2d)] ++
    ([fun c => c == 0x38 || c == 0x39 || c == 0x61 || c == 0x62] ++ hexDigits 3) ++
    [(· == 0x2d)] ++ hexDigits 12

/-- `isValidRequestId`. -/
def isValidRequestId (id : ByteString) : Bool := matchesClasses requestIdPattern id

/-! ## Matching -/

theorem matchesClasses_append {classes classes' : List (UInt8 → Bool)} {s s' : ByteString}
    (h : matchesClasses classes s = true) (h' : matchesClasses classes' s' = true) :
    matchesClasses (classes ++ classes') (s ++ s') = true := by
  induction classes generalizing s with
  | nil =>
      cases s with
      | nil => exact h'
      | cons c s => cases h
  | cons cls classes ih =>
      cases s with
      | nil => cases h
      | cons c s =>
          obtain ⟨hc, hs⟩ := Bool.and_eq_true_iff.mp h
          exact Bool.and_eq_true_iff.mpr ⟨hc, ih hs⟩

theorem matchesClasses_hexDigits {s : ByteString} (h : ∀ c ∈ s, isHexLower c = true) :
    matchesClasses (hexDigits s.length) s = true := by
  induction s with
  | nil => rfl
  | cons c s ih =>
      exact Bool.and_eq_true_iff.mpr
        ⟨h c List.mem_cons_self, ih fun d hd => h d (List.mem_cons_of_mem c hd)⟩

theorem exists_class_of_mem {classes : List (UInt8 → Bool)} {s : ByteString}
    (h : matchesClasses classes s = true) : ∀ c ∈ s, ∃ cls ∈ classes, cls c = true := by
  induction classes generalizing s with
  | nil =>
      cases s with
      | nil => exact nofun
      | cons c s => cases h
  | cons cls classes ih =>
      cases s with
      | nil => exact nofun
      | cons c s =>
          obtain ⟨hc, hs⟩ := Bool.and_eq_true_iff.mp h
          intro d hd
          rcases List.mem_cons.mp hd with rfl | hd
          · exact ⟨cls, List.mem_cons_self, hc⟩
          · obtain ⟨cls', hmem, hcls⟩ := ih hs d hd
            exact ⟨cls', List.mem_cons_of_mem cls hmem, hcls⟩

/-- What stands in an id: hexadecimal digits and dashes. -/
def isIdByte (c : UInt8) : Bool := isHexLower c || c == 0x2d

theorem isIdByte_of_mem {id : RequestId} (valid : isValidRequestId id = true) :
    ∀ c ∈ id, isIdByte c = true := by
  intro c hc
  obtain ⟨cls, hmem, hcls⟩ := exists_class_of_mem valid c hc
  unfold requestIdPattern hexDigits at hmem
  simp only [List.mem_append, List.mem_replicate, List.mem_singleton] at hmem
  have hex (h : isHexLower c = true) : isIdByte c = true := Bool.or_eq_true_iff.mpr (.inl h)
  have literal {d : UInt8} (h : (c == d) = true) (hd : isIdByte d = true) : isIdByte c = true :=
    beq_iff_eq.mp h ▸ hd
  rcases hmem with ((((((((⟨-, rfl⟩ | rfl) | ⟨-, rfl⟩) | rfl) | rfl | ⟨-, rfl⟩) | rfl) |
    rfl | ⟨-, rfl⟩) | rfl) | ⟨-, rfl⟩)
  on_goal 8 => rcases Bool.or_eq_true_iff.mp hcls with hcls | hcls
  on_goal 8 => rcases Bool.or_eq_true_iff.mp hcls with hcls | hcls
  on_goal 8 => rcases Bool.or_eq_true_iff.mp hcls with hcls | hcls
  all_goals first | exact hex hcls | exact literal hcls (by decide)

/-- An id starts with a hexadecimal digit. -/
theorem exists_head {id : RequestId} (valid : isValidRequestId id = true) :
    ∃ c rest, id = c :: rest ∧ isHexLower c = true := by
  cases id with
  | nil => cases valid
  | cons c rest => exact ⟨c, rest, rfl, (Bool.and_eq_true_iff.mp valid).1⟩

/-! ## Generated ids -/

theorem toNat_lt_of_and_mask (x : UInt32) : ((x &&& 0xFFFF).toUInt16).toNat < 16 ^ 4 :=
  UInt16.toNat_lt _

/-- The masked draw with the version or variant bits put in front. -/
theorem toNat_marked (x : UInt32) :
    (((x &&& 0x0FFF) ||| 0x4000).toUInt16).toNat = 0x4000 + x.toNat % 0x1000 ∧
      (((x &&& 0x3FFF) ||| 0x8000).toUInt16).toNat = 0x8000 + x.toNat % 0x4000 := by
  have hlow : x.toNat &&& 0xFFF = x.toNat % 0x1000 := Nat.and_two_pow_sub_one_eq_mod x.toNat 12
  have hlow' : x.toNat &&& 0x3FFF = x.toNat % 0x4000 := Nat.and_two_pow_sub_one_eq_mod x.toNat 14
  have hor : 0x4000 + x.toNat % 0x1000 = 0x4000 ||| x.toNat % 0x1000 :=
    Nat.two_pow_add_eq_or_of_lt (i := 14) (by omega) 1
  have hor' : 0x8000 + x.toNat % 0x4000 = 0x8000 ||| x.toNat % 0x4000 :=
    Nat.two_pow_add_eq_or_of_lt (i := 15) (by omega) 1
  constructor
  · simp only [UInt32.toNat_toUInt16, UInt32.toNat_or, UInt32.toNat_and, UInt32.reduceToNat, hlow]
    rw [Nat.or_comm, ← hor]
    omega
  · simp only [UInt32.toNat_toUInt16, UInt32.toNat_or, UInt32.toNat_and, UInt32.reduceToNat, hlow']
    rw [Nat.or_comm, ← hor']
    omega

theorem matchesClasses_formatHex {width n : Nat} (filled : 0 < width) (fits : n < 16 ^ width) :
    matchesClasses (hexDigits width) (formatHex width n) = true := by
  have := matchesClasses_hexDigits (isHexLower_of_mem_formatHex (w := width) (n := n))
  rwa [length_formatHex filled fits] at this

/-- The digits behind the first of four. -/
theorem matchesClasses_four {cls : UInt8 → Bool} {n : Nat} (low : 4096 ≤ n) (high : n < 65536)
    (first : cls (Nat.digitChar (n / 4096)).toNat.toUInt8 = true) :
    matchesClasses ([cls] ++ hexDigits 3) (formatHex 4 n) = true := by
  have hmem := isHexLower_of_mem_formatHex (w := 4) (n := n)
  rw [formatHex_four low high] at hmem ⊢
  refine Bool.and_eq_true_iff.mpr ⟨first, ?_⟩
  exact matchesClasses_hexDigits fun c hc => hmem c (List.mem_cons_of_mem _ hc)

/-- Every generated id is valid. -/
theorem isValidRequestId_generateRequestId (draw₁ draw₂ draw₃ draw₄ draw₅ draw₆ : UInt32) :
    isValidRequestId (generateRequestId draw₁ draw₂ draw₃ draw₄ draw₅ draw₆) = true := by
  obtain ⟨hversion, -⟩ := toNat_marked draw₃
  obtain ⟨-, hvariant⟩ := toNat_marked draw₄
  have dash : matchesClasses [(· == 0x2d)] (text "-") = true := by decide
  have node : matchesClasses (hexDigits 12)
      (formatHex 4 (draw₆ &&& 0xFFFF).toUInt16.toNat ++ formatHex 8 draw₅.toNat) = true := by
    change matchesClasses (hexDigits 4 ++ hexDigits 8) _ = true
    exact matchesClasses_append
      (matchesClasses_formatHex (by decide) (toNat_lt_of_and_mask draw₆))
      (matchesClasses_formatHex (by decide) draw₅.toNat_lt)
  unfold isValidRequestId requestIdPattern generateRequestId
  dsimp only
  rw [List.append_assoc _ (formatHex 4 _) (formatHex 8 _)]
  refine matchesClasses_append (matchesClasses_append (matchesClasses_append
    (matchesClasses_append (matchesClasses_append (matchesClasses_append (matchesClasses_append
      (matchesClasses_append ?_ dash) ?_) dash) ?_) dash) ?_) dash) node
  · exact matchesClasses_formatHex (by decide) draw₁.toNat_lt
  · exact matchesClasses_formatHex (by decide) (toNat_lt_of_and_mask draw₂)
  · have hdigit : (0x4000 + draw₃.toNat % 0x1000) / 4096 = 4 := by omega
    rw [hversion]
    refine matchesClasses_four (by omega) (by omega) ?_
    rw [hdigit]
    decide
  · have hdigit : (0x8000 + draw₄.toNat % 0x4000) / 4096 = 8 ∨
        (0x8000 + draw₄.toNat % 0x4000) / 4096 = 9 ∨
        (0x8000 + draw₄.toNat % 0x4000) / 4096 = 10 ∨
        (0x8000 + draw₄.toNat % 0x4000) / 4096 = 11 := by omega
    rw [hvariant]
    refine matchesClasses_four (by omega) (by omega) ?_
    rcases hdigit with h | h | h | h <;> rw [h] <;> decide

end CwDb.Executor
