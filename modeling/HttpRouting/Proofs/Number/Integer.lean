import HttpRouting.Proofs.Variables
import Mathlib.Data.List.Induction
import Mathlib.Data.List.TakeWhile
import Mathlib.Data.Nat.Digits.Defs

/-!
# Integers are read exactly

Reading accumulates digits and checks every step. A digit only makes the number that is denoted so
far larger, so a step leaves the range if and only if all the digits together denote a number outside.
The outcome is therefore decided by the sign, the number that the first run of digits denotes, and
what comes after it.
-/

namespace HttpRouting

namespace Integer

inductive Sign where
  | none
  | plus
  | minus
deriving DecidableEq, Repr

namespace Sign

def text : Sign → List Char
  | .none => []
  | .plus => ['+']
  | .minus => ['-']

def apply : Sign → Nat → Int
  | .none, n | .plus, n => n
  | .minus, n => -n

def fault : Sign → Fault
  | .none | .plus => .tooLarge
  | .minus => .tooSmall

theorem fault_eq_tooLarge_iff (s : Sign) : s.fault = .tooLarge ↔ s ≠ .minus := by
  cases s <;> simp [fault]

theorem fault_eq_tooSmall_iff (s : Sign) : s.fault = .tooSmall ↔ s = .minus := by
  cases s <;> simp [fault]

@[simp] theorem apply_zero (s : Sign) : s.apply 0 = 0 := by
  cases s <;> rfl

end Sign

def Range.Contains (range : Range) (n : Int) : Prop := range.low ≤ n ∧ n ≤ range.high

instance (range : Range) (n : Int) : Decidable (range.Contains n) :=
  inferInstanceAs (Decidable (_ ∧ _))

def digitValue (c : Char) : Nat := c.toNat - '0'.toNat

/-- The number that decimal digits denote, the last one being the units. -/
def digitsValue (ds : List Char) : Nat := Nat.ofDigits 10 (ds.reverse.map digitValue)

def extend (n : Nat) (ds : List Char) : Nat := ds.foldl (fun n c => n * 10 + digitValue c) n

theorem digitsValue_nil : digitsValue [] = 0 := rfl

theorem digitsValue_append_singleton (ds : List Char) (c : Char) :
    digitsValue (ds ++ [c]) = digitsValue ds * 10 + digitValue c := by
  rw [digitsValue, List.reverse_append, List.reverse_singleton, List.singleton_append,
    List.map_cons, Nat.ofDigits_cons, digitsValue, Nat.add_comm, Nat.mul_comm]

theorem digitsValue_eq_extend (ds : List Char) : digitsValue ds = extend 0 ds := by
  induction ds using List.reverseRecOn with
  | nil => rfl
  | append_singleton ds c ih =>
      rw [digitsValue_append_singleton, ih, extend, extend, List.foldl_append, List.foldl_cons,
        List.foldl_nil]

theorem extend_cons (n : Nat) (c : Char) (ds : List Char) :
    extend n (c :: ds) = extend (n * 10 + digitValue c) ds :=
  List.foldl_cons

theorem le_extend (n : Nat) (ds : List Char) : n ≤ extend n ds := by
  induction ds generalizing n with
  | nil => exact Nat.le_refl n
  | cons c ds ih =>
      have step := ih (n * 10 + digitValue c)
      rw [extend_cons]
      omega

theorem digit?_of_isDigit {c : Char} (h : c.isDigit) : digit? c = some (digitValue c) :=
  if_pos h

theorem digit?_of_not_isDigit {c : Char} (h : ¬ c.isDigit) : digit? c = none :=
  if_neg h

/-- Digits upwards from a number in the range: they leave it together or not at all, and then what
comes after them decides. -/
theorem ascend_append {range : Range} {ds rest : List Char} (digits : ∀ c ∈ ds, c.isDigit)
    (ends : ∀ c ∈ rest.head?, ¬ c.isDigit) {n : Nat} (fits : n ≤ range.high) :
    ascend range n (ds ++ rest) =
      if range.high < extend n ds then .error .tooLarge
      else if rest.isEmpty then .ok (extend n ds)
      else .error .invalidDigit := by
  induction ds generalizing n with
  | nil =>
      have inside : ¬ range.high < extend n [] := Int.not_lt.mpr fits
      rw [if_neg inside]
      cases rest with
      | nil => rfl
      | cons c rest =>
          rw [List.nil_append, ascend, digit?_of_not_isDigit (ends c rfl)]
          rfl
  | cons c ds ih =>
      rw [List.forall_mem_cons] at digits
      have grown := le_extend (n * 10 + digitValue c) ds
      have cast : (n : Int) * 10 + digitValue c = (n * 10 + digitValue c : Nat) := by omega
      rw [List.cons_append, ascend, digit?_of_isDigit digits.1, extend_cons]
      simp only [cast]
      by_cases beyond : range.high < (n * 10 + digitValue c : Nat)
      -- The digits behind can only take the number further out of the range.
      · rw [if_pos beyond, if_pos (by omega)]
      · rw [if_neg beyond, ih digits.2 (by omega)]

theorem ascend_zero {range : Range} (zero : range.Contains 0) {ds rest : List Char}
    (digits : ∀ c ∈ ds, c.isDigit) (ends : ∀ c ∈ rest.head?, ¬ c.isDigit) :
    ascend range 0 (ds ++ rest) =
      if range.Contains (digitsValue ds) then
        if rest.isEmpty then .ok (digitsValue ds) else .error .invalidDigit
      else .error .tooLarge := by
  have outcome := ascend_append digits ends (n := 0) zero.2
  rw [← digitsValue_eq_extend] at outcome
  by_cases beyond : range.high < digitsValue ds
  · rw [if_pos beyond] at outcome
    rw [if_neg (fun inside => Int.not_lt.mpr inside.2 beyond)]
    exact outcome
  · have inside : range.Contains (digitsValue ds) := by
      have := zero.1
      constructor <;> omega
    rw [if_neg beyond] at outcome
    rw [if_pos inside]
    exact outcome

def Range.mirror (range : Range) : Range := ⟨-range.high, -range.low⟩

theorem Range.contains_mirror_iff (range : Range) (n : Int) :
    range.mirror.Contains n ↔ range.Contains (-n) := by
  simp only [Contains, mirror]
  omega

/-- Going downwards mirrors going upwards. -/
theorem descend_of_ascend (range : Range) (n : Int) (cs : List Char) :
    descend range (-n) cs =
      ((ascend range.mirror n cs).map Int.neg).mapError fun fault =>
        if fault = .tooLarge then .tooSmall else fault := by
  induction cs generalizing n with
  | nil => rfl
  | cons c cs ih =>
      rw [descend, ascend]
      cases digit? c with
      | none => rfl
      | some d =>
          have step : -n * 10 - (d : Int) = -(n * 10 + d) := by omega
          have under : -(n * 10 + d) < range.low ↔ range.mirror.high < n * 10 + d := by
            simp only [Range.mirror]
            omega
          simp only [step, under]
          by_cases beyond : range.mirror.high < n * 10 + d
          · rw [if_pos beyond, if_pos beyond]
            rfl
          · rw [if_neg beyond, if_neg beyond, ih]

theorem descend_zero {range : Range} (zero : range.Contains 0) {ds rest : List Char}
    (digits : ∀ c ∈ ds, c.isDigit) (ends : ∀ c ∈ rest.head?, ¬ c.isDigit) :
    descend range 0 (ds ++ rest) =
      if range.Contains (-digitsValue ds) then
        if rest.isEmpty then .ok (-digitsValue ds) else .error .invalidDigit
      else .error .tooSmall := by
  have mirrored := descend_of_ascend range 0 (ds ++ rest)
  rw [ascend_zero ((range.contains_mirror_iff 0).mpr zero) digits ends] at mirrored
  simp only [Range.contains_mirror_iff] at mirrored
  refine mirrored.trans ?_
  split
  · split <;> rfl
  · rfl

/-- A text taken apart into a sign, the digits behind it, and what comes from the first character on
that is no digit. A text without a sign does not begin with the character of one. -/
structure Apart (cs : List Char) (s : Sign) (ds rest : List Char) : Prop where
  eq : cs = s.text ++ (ds ++ rest)
  digits : ∀ c ∈ ds, c.isDigit
  ends : ∀ c ∈ rest.head?, ¬ c.isDigit
  unsigned : s = .none → ∀ c ∈ cs.head?, c ≠ '+' ∧ c ≠ '-'

theorem Apart.of_body {cs : List Char} (s : Sign) (body : List Char) (eq : cs = s.text ++ body)
    (unsigned : s = .none → ∀ c ∈ cs.head?, c ≠ '+' ∧ c ≠ '-') :
    Apart cs s (body.takeWhile Char.isDigit) (body.dropWhile Char.isDigit) := by
  refine ⟨?_, fun c hc => List.mem_takeWhile_imp hc, ?_, unsigned⟩
  · rw [List.takeWhile_append_dropWhile, eq]
  · intro c hc
    have stops := List.head?_dropWhile_not Char.isDigit body
    rw [Option.mem_def.mp hc] at stops
    rw [Bool.not_eq_true]
    exact stops

theorem exists_apart (cs : List Char) : ∃ s ds rest, Apart cs s ds rest := by
  cases cs with
  | nil => exact ⟨.none, _, _, .of_body .none [] rfl (by simp)⟩
  | cons c cs =>
      by_cases plus : c = '+'
      · subst plus
        exact ⟨.plus, _, _, .of_body .plus cs rfl (by simp)⟩
      · by_cases minus : c = '-'
        · subst minus
          exact ⟨.minus, _, _, .of_body .minus cs rfl (by simp)⟩
        · exact ⟨.none, _, _, .of_body .none (c :: cs) rfl (by simp [plus, minus])⟩

theorem read_unsigned (range : Range) {c : Char} (plus : c ≠ '+') (minus : c ≠ '-')
    (cs : List Char) : read range (c :: cs) = ascend range 0 (c :: cs) := by
  cases cs with
  | nil => rfl
  | cons d cs => rw [read, if_neg plus, if_neg minus]

theorem read_plus (range : Range) {body : List Char} (ne : body ≠ []) :
    read range ('+' :: body) = ascend range 0 body := by
  cases body with
  | nil => exact absurd rfl ne
  | cons d cs => rw [read, if_pos rfl]

theorem read_minus (range : Range) {body : List Char} (ne : body ≠ []) :
    read range ('-' :: body) = descend range 0 body := by
  cases body with
  | nil => exact absurd rfl ne
  | cons d cs => rw [read, if_neg (by decide), if_pos rfl]

theorem read_lone {range : Range} {s : Sign} (signed : s ≠ .none) :
    read range s.text = .error .invalidDigit := by
  cases s with
  | none => exact absurd rfl signed
  | plus => rfl
  | minus => rfl

/-- The outcome by the parts of a text: a number outside the range is the fault of its sign, and one
in the range needs at least one digit and nothing behind the digits. -/
theorem read_of_apart {range : Range} (zero : range.Contains 0) {cs ds rest : List Char} {s : Sign}
    (h : Apart cs s ds rest) (ne : cs ≠ []) :
    read range cs =
      if range.Contains (s.apply (digitsValue ds)) then
        if ds ≠ [] ∧ rest = [] then .ok (s.apply (digitsValue ds)) else .error .invalidDigit
      else .error s.fault := by
  by_cases lone : ds ++ rest = []
  · obtain ⟨rfl, rfl⟩ := List.append_eq_nil_iff.mp lone
    have eq : cs = s.text := by rw [h.eq, List.append_nil, List.append_nil]
    have signed : s ≠ .none := by
      rintro rfl
      exact ne eq
    rw [eq, read_lone signed, digitsValue_nil, s.apply_zero, if_pos zero,
      if_neg (fun h => h.1 rfl)]
  · have complete : rest.isEmpty ↔ ds ≠ [] ∧ rest = [] := by
      rw [List.isEmpty_iff]
      constructor
      · rintro rfl
        exact ⟨fun hds => lone (by rw [hds]; rfl), rfl⟩
      · exact And.right
    have upwards := ascend_zero zero h.digits h.ends
    have downwards := descend_zero zero h.digits h.ends
    simp only [complete] at upwards downwards
    cases s with
    | none =>
        have eq : cs = ds ++ rest := h.eq
        obtain ⟨c, tail, hc⟩ := List.exists_cons_of_ne_nil ne
        have plain := h.unsigned rfl c (by rw [hc]; rfl)
        rw [hc, read_unsigned range plain.1 plain.2, ← hc, eq]
        exact upwards
    | plus =>
        have eq : cs = '+' :: (ds ++ rest) := h.eq
        rw [eq, read_plus range lone]
        exact upwards
    | minus =>
        have eq : cs = '-' :: (ds ++ rest) := h.eq
        rw [eq, read_minus range lone]
        exact downwards

/-- An optional sign and one or more digits, with the number that they denote. -/
def Denotes (cs : List Char) (n : Int) : Prop :=
  ∃ (s : Sign) (ds : List Char), cs = s.text ++ ds ∧ ds ≠ [] ∧ (∀ c ∈ ds, c.isDigit) ∧
    n = s.apply (digitsValue ds)

/-- When a fault is reported. Digits that leave the range come before anything behind them. -/
def Fault.Occurs (range : Range) (cs : List Char) : Fault → Prop
  | .empty => cs = []
  | .invalidDigit => cs = ['+'] ∨ cs = ['-'] ∨ ∃ s ds c rest, Apart cs s ds (c :: rest) ∧
      range.Contains (s.apply (digitsValue ds))
  | .tooLarge => ∃ s ds rest, Apart cs s ds rest ∧ s ≠ .minus ∧
      ¬ range.Contains (s.apply (digitsValue ds))
  | .tooSmall => ∃ ds rest, Apart cs .minus ds rest ∧
      ¬ range.Contains (Sign.minus.apply (digitsValue ds))

theorem Denotes.apart {cs : List Char} {n : Int} (h : Denotes cs n) :
    ∃ s ds, Apart cs s ds [] ∧ ds ≠ [] ∧ n = s.apply (digitsValue ds) := by
  obtain ⟨s, ds, eq, ne, digits, hn⟩ := h
  refine ⟨s, ds, ⟨by rw [List.append_nil, eq], digits, by simp, ?_⟩, ne, hn⟩
  rintro rfl c hc
  have eq : cs = ds := eq
  have mem : c ∈ ds := List.mem_of_mem_head? (eq ▸ hc)
  have digit := digits c mem
  constructor <;> rintro rfl <;> exact absurd digit (by decide)

section Outcomes

variable {range : Range} (zero : range.Contains 0) (cs : List Char)
include zero

theorem read_cases {cs : List Char} (ne : cs ≠ []) : ∃ s ds rest, Apart cs s ds rest ∧
    (range.Contains (s.apply (digitsValue ds)) ∧ ds ≠ [] ∧ rest = [] ∧
        read range cs = .ok (s.apply (digitsValue ds)) ∨
      range.Contains (s.apply (digitsValue ds)) ∧ (ds = [] ∨ rest ≠ []) ∧
        read range cs = .error .invalidDigit ∨
      ¬ range.Contains (s.apply (digitsValue ds)) ∧ read range cs = .error s.fault) := by
  obtain ⟨s, ds, rest, parts⟩ := exists_apart cs
  have outcome := read_of_apart zero parts ne
  refine ⟨s, ds, rest, parts, ?_⟩
  by_cases inside : range.Contains (s.apply (digitsValue ds))
  · rw [if_pos inside] at outcome
    by_cases complete : ds ≠ [] ∧ rest = []
    · rw [if_pos complete] at outcome
      exact .inl ⟨inside, complete.1, complete.2, outcome⟩
    · rw [if_neg complete] at outcome
      rw [not_and_or, not_not] at complete
      exact .inr (.inl ⟨inside, complete, outcome⟩)
  · rw [if_neg inside] at outcome
    exact .inr (.inr ⟨inside, outcome⟩)

theorem read_eq_ok_iff (n : Int) :
    read range cs = .ok n ↔ Denotes cs n ∧ range.Contains n := by
  constructor
  · intro h
    have ne : cs ≠ [] := by
      rintro rfl
      cases h
    obtain ⟨s, ds, rest, parts, ⟨inside, hds, rfl, hread⟩ | ⟨-, -, hread⟩ | ⟨-, hread⟩⟩ :=
      read_cases zero ne
    · obtain rfl := Except.ok.inj (hread.symm.trans h)
      refine ⟨⟨s, ds, ?_, hds, parts.digits, rfl⟩, inside⟩
      rw [parts.eq, List.append_nil]
    · cases hread.symm.trans h
    · cases hread.symm.trans h
  · rintro ⟨denotes, inside⟩
    obtain ⟨s, ds, parts, ne, rfl⟩ := denotes.apart
    have nonempty : cs ≠ [] := by
      rw [parts.eq, List.append_nil]
      exact List.append_ne_nil_of_right_ne_nil _ ne
    rw [read_of_apart zero parts nonempty, if_pos inside, if_pos ⟨ne, rfl⟩]

theorem read_eq_empty_iff : read range cs = .error .empty ↔ cs = [] := by
  constructor
  · intro h
    by_contra ne
    obtain ⟨s, ds, rest, -, ⟨-, -, -, hread⟩ | ⟨-, -, hread⟩ | ⟨-, hread⟩⟩ := read_cases zero ne
    · cases hread.symm.trans h
    · cases hread.symm.trans h
    · cases s <;> cases hread.symm.trans h
  · rintro rfl
    rfl

theorem read_eq_invalidDigit_iff :
    read range cs = .error .invalidDigit ↔ Fault.invalidDigit.Occurs range cs := by
  constructor
  · intro h
    have ne : cs ≠ [] := by
      rintro rfl
      cases h
    obtain ⟨s, ds, rest, parts, ⟨-, -, -, hread⟩ | ⟨inside, stuck, -⟩ | ⟨-, hread⟩⟩ :=
      read_cases zero ne
    · cases hread.symm.trans h
    · cases rest with
      | cons c rest => exact .inr (.inr ⟨s, ds, c, rest, parts, inside⟩)
      | nil =>
          obtain rfl : ds = [] := stuck.resolve_right fun hrest => hrest rfl
          have eq : cs = s.text := by rw [parts.eq, List.append_nil, List.append_nil]
          cases s with
          | none => exact absurd eq ne
          | plus => exact .inl eq
          | minus => exact .inr (.inl eq)
    · cases s <;> cases hread.symm.trans h
  · rintro (rfl | rfl | ⟨s, ds, c, rest, parts, inside⟩)
    · rfl
    · rfl
    · have ne : cs ≠ [] := by
        rw [parts.eq]
        simp
      rw [read_of_apart zero parts ne, if_pos inside, if_neg (by simp)]

theorem read_eq_fault_iff {fault : Fault} (overflow : fault = .tooLarge ∨ fault = .tooSmall) :
    read range cs = .error fault ↔ ∃ s ds rest, Apart cs s ds rest ∧ s.fault = fault ∧
      ¬ range.Contains (s.apply (digitsValue ds)) := by
  constructor
  · intro h
    have ne : cs ≠ [] := by
      rintro rfl
      obtain rfl : Fault.empty = fault := Except.error.inj h
      simp at overflow
    obtain ⟨s, ds, rest, parts, ⟨-, -, -, hread⟩ | ⟨-, -, hread⟩ | ⟨outside, hread⟩⟩ :=
      read_cases zero ne
    · cases hread.symm.trans h
    · obtain rfl : Fault.invalidDigit = fault := Except.error.inj (hread.symm.trans h)
      simp at overflow
    · exact ⟨s, ds, rest, parts, Except.error.inj (hread.symm.trans h), outside⟩
  · rintro ⟨s, ds, rest, parts, rfl, outside⟩
    have ne : cs ≠ [] := by
      intro hcs
      obtain ⟨-, hbody⟩ := List.append_eq_nil_iff.mp (parts.eq.symm.trans hcs)
      obtain ⟨rfl, -⟩ := List.append_eq_nil_iff.mp hbody
      rw [digitsValue_nil, s.apply_zero] at outside
      exact outside zero
    rw [read_of_apart zero parts ne, if_neg outside]

theorem read_eq_error_iff (fault : Fault) :
    read range cs = .error fault ↔ fault.Occurs range cs := by
  cases fault with
  | empty => exact read_eq_empty_iff zero cs
  | invalidDigit => exact read_eq_invalidDigit_iff zero cs
  | tooLarge =>
      rw [read_eq_fault_iff zero cs (.inl rfl)]
      simp only [Fault.Occurs, Sign.fault_eq_tooLarge_iff]
  | tooSmall =>
      rw [read_eq_fault_iff zero cs (.inr rfl)]
      simp only [Fault.Occurs, Sign.fault_eq_tooSmall_iff]
      constructor
      · rintro ⟨_, ds, rest, parts, rfl, outside⟩
        exact ⟨ds, rest, parts, outside⟩
      · rintro ⟨ds, rest, parts, outside⟩
        exact ⟨.minus, ds, rest, parts, rfl, outside⟩

end Outcomes

end Integer

/-- How a variable answers that is read as an integer of a range: with the number that its value
denotes, or with an error that carries its name, its value, the kind and the fault that occurs. -/
structure ReadsExactly (range : Integer.Range) (kind : NumberKind) (name value : String)
    (answer : Except VariableError (Option Number)) : Prop where
  number (n : Int) : answer = .ok (some (.integer n)) ↔
    Integer.Denotes value.toList n ∧ range.low ≤ n ∧ n ≤ range.high
  fails (fault : Integer.Fault) : answer = .error ⟨name, value, kind.name, fault.message⟩ ↔
    fault.Occurs range value.toList
  settled : (∃ n, answer = .ok (some (.integer n))) ∨
    ∃ fault : Integer.Fault, answer = .error ⟨name, value, kind.name, fault.message⟩

theorem Integer.Fault.message_inj {fault other : Fault} (h : fault.message = other.message) :
    fault = other := by
  cases fault <;> cases other <;> first | rfl | exact absurd h (by decide)

theorem readsExactly_of_read {range : Integer.Range} (zero : range.Contains 0) {kind : NumberKind}
    {value : String} (h : kind.read value = NumberKind.readInteger range value) (name : String) :
    ReadsExactly range kind name value ((Variables.parse kind name value).map some) := by
  have ok := Integer.read_eq_ok_iff zero value.toList
  have error := Integer.read_eq_error_iff zero value.toList
  rw [Variables.parse, h, NumberKind.readInteger_eq]
  cases hread : Integer.read range value.toList with
  | ok m =>
      rw [hread] at ok error
      refine ⟨fun n => ?_, fun fault => ?_, .inl ⟨m, rfl⟩⟩
      · refine Iff.trans ?_ (ok n)
        constructor
        · rintro ⟨⟩
          rfl
        · rintro ⟨⟩
          rfl
      · refine Iff.trans ?_ (error fault)
        constructor <;> rintro ⟨⟩
  | error found =>
      rw [hread] at ok error
      refine ⟨fun n => ?_, fun fault => ?_, .inr ⟨found, rfl⟩⟩
      · refine Iff.trans ?_ (ok n)
        constructor <;> rintro ⟨⟩
      · refine Iff.trans ?_ (error fault)
        constructor
        · intro same
          have message : found.message = fault.message := by
            simpa [Except.map, Except.mapError] using same
          rw [Integer.Fault.message_inj message]
        · rintro ⟨⟩
          rfl

/-- Both integer kinds read the first value under a name exactly, each in its own range. A number
that the smaller one reads is read as the same number by the larger one. -/
theorem integers_read_exactly {pairs : List (String × String)} {name value : String}
    (h : pairs.lookup name = some value) :
    let answer (kind : NumberKind) := ((Variables.ofPairs pairs).read kind name).1
    ReadsExactly ⟨-2147483648, 2147483647⟩ .int name value (answer .int) ∧
      ReadsExactly ⟨-9223372036854775808, 9223372036854775807⟩ .long name value (answer .long) ∧
      ∀ n, answer .int = .ok (some (.integer n)) → answer .long = .ok (some (.integer n)) := by
  intro answer
  have answered (kind : NumberKind) :
      answer kind = (Variables.parse kind name value).map some := by
    have first := Variables.fst_read (Variables.sound_ofPairs pairs) kind name
    rw [Variables.pairs_ofPairs, Variables.parseFirst, h] at first
    exact first
  have int : ReadsExactly ⟨-2147483648, 2147483647⟩ .int name value (answer .int) := by
    rw [answered]
    exact readsExactly_of_read (by decide) rfl name
  have long : ReadsExactly ⟨-9223372036854775808, 9223372036854775807⟩ .long name value
      (answer .long) := by
    rw [answered]
    exact readsExactly_of_read (by decide) rfl name
  refine ⟨int, long, fun n hn => ?_⟩
  obtain ⟨denotes, low, high⟩ := (int.number n).mp hn
  dsimp only at low high
  refine (long.number n).mpr ⟨denotes, ?_, ?_⟩
  · dsimp only
    omega
  · dsimp only
    omega

/-- Ten digits that are one too small for the smaller range, and a letter: the digits decide the one
reading, the letter the other. -/
theorem integers_read_exactly_of_trailing_letter :
    [("id", "-2147483649x")].lookup "id" = some "-2147483649x" ∧
      ((Variables.ofPairs [("id", "-2147483649x")]).read .int "id").1 =
        .error ⟨"id", "-2147483649x", "int", "number too small to fit in target type"⟩ ∧
      ((Variables.ofPairs [("id", "-2147483649x")]).read .long "id").1 =
        .error ⟨"id", "-2147483649x", "long", "invalid digit found in string"⟩ := by
  have first : [("id", "-2147483649x")].lookup "id" = some "-2147483649x" := by decide
  have exactly := integers_read_exactly first
  have parts : Integer.Apart "-2147483649x".toList .minus
      ['2', '1', '4', '7', '4', '8', '3', '6', '4', '9'] ['x'] :=
    ⟨by decide, List.all_eq_true.mp rfl, by rintro c ⟨⟩; decide, by decide⟩
  have value :
      Integer.digitsValue ['2', '1', '4', '7', '4', '8', '3', '6', '4', '9'] = 2147483649 := by
    rw [Integer.digitsValue_eq_extend]
    decide
  refine ⟨first, (exactly.1.fails .tooSmall).mpr ⟨_, _, parts, ?_⟩,
    (exactly.2.1.fails .invalidDigit).mpr (.inr (.inr ⟨_, _, _, _, parts, ?_⟩))⟩
  · rw [value]
    decide
  · rw [value]
    decide

end HttpRouting
