/-
  Harvest.Command.Value

  Reading the values of options: named arguments, dates, numbers, paths and addresses.
-/
import Harvest.Command.Address
import Harvest.Command.Usage
import Harvest.Calendar.Strict
import Harvest.Files.Path
import Harvest.Json.Read

namespace Harvest.Command

/-! ## Named arguments -/

/-- The parts of a text before and behind the first equals sign, if there is one. -/
def splitEquals : List Char → Option (List Char × List Char)
  | [] => none
  | c :: cs =>
    if c = '=' then some ([], cs)
    else (splitEquals cs).map fun (name, value) => (c :: name, value)

/-- Why a text is no named argument. -/
inductive ArgumentFault where
  | noEquals (text : String)
  | emptyName (text : String)
  deriving DecidableEq, Repr

/-- The words for a fault. -/
def ArgumentFault.message : ArgumentFault → String
  | .noEquals text => "invalid KEY=VALUE: no `=` found in `" ++ text ++ "`"
  | .emptyName text => "invalid KEY=VALUE: empty key in `" ++ text ++ "`"

/-- The value that a text stands for: the JSON value that it is the text of, or else the
    text itself. -/
def argumentValue (text : List Char) : Json :=
  match Json.ofChars text with
  | .ok v => v
  | .error _ => .string (String.ofList text)

/-- Reads a named argument: a name, an equals sign and a value. -/
def readArgument (text : String) : Except ArgumentFault (String × Json) :=
  match splitEquals text.toList with
  | none => .error (.noEquals text)
  | some ([], _) => .error (.emptyName text)
  | some (name, value) => .ok (String.ofList name, argumentValue value)

/-- A text is cut at its first equals sign. -/
theorem splitEquals_eq_some_iff {cs name value : List Char} :
    splitEquals cs = some (name, value) ↔ '=' ∉ name ∧ cs = name ++ '=' :: value := by
  induction cs generalizing name with
  | nil => simp [splitEquals]
  | cons c cs ih =>
    rw [splitEquals]
    by_cases hc : c = '='
    · rw [if_pos hc]
      constructor
      · rintro ⟨⟩
        exact ⟨List.not_mem_nil, by rw [hc, List.nil_append]⟩
      · rintro ⟨hname, hcs⟩
        -- A part in front that is not empty would begin with the sign.
        cases name with
        | nil =>
          cases hcs
          rfl
        | cons d name =>
          cases hcs
          exact absurd (hc ▸ List.mem_cons_self) hname
    · rw [if_neg hc, Option.map_eq_some_iff]
      constructor
      · rintro ⟨⟨front, behind⟩, hsplit, ⟨⟩⟩
        obtain ⟨hfront, rfl⟩ := ih.mp hsplit
        exact ⟨by simp [hfront, Ne.symm hc], rfl⟩
      · rintro ⟨hname, hcs⟩
        cases name with
        | nil =>
          cases hcs
          exact absurd rfl hc
        | cons d name =>
          cases hcs
          rw [List.mem_cons, not_or] at hname
          exact ⟨(name, value), ih.mpr ⟨hname.2, rfl⟩, rfl⟩

/-! ## Dates -/

/-- Reads a date in the strict form, with blanks around it. -/
def readDate (text : String) : Except Usage Calendar.Instant :=
  match Calendar.Instant.ofStrict (Text.trim text.toList) with
  | .ok t => .ok t
  | .error f =>
    .error (.unreadable ("invalid RFC 3339 date `" ++ text ++ "`: " ++ f.message))

/-! ## Numbers -/

/-- Why a text is no signed number of sixty-four bits. -/
inductive NumberFault where
  | empty
  | notADigit
  | tooLarge
  | tooSmall
  deriving DecidableEq, Repr

/-- The words for a fault. -/
def NumberFault.message : NumberFault → String
  | .empty => "cannot parse integer from empty string"
  | .notADigit => "invalid digit found in string"
  | .tooLarge => "number too large to fit in target type"
  | .tooSmall => "number too small to fit in target type"

/-- Reads on in the digits of a number whose value so far is `n`. The first character that
    is no digit and the first digit with which the number is out of bounds end it. -/
def readDigits (negative : Bool) (n : Int) : List Char → Except NumberFault Int
  | [] => .ok n
  | c :: cs =>
    match Address.digit? 10 c with
    | none => .error .notADigit
    | some d =>
      let n := n * 10 + (if negative then -(d : Int) else d)
      if n < Number.leastSigned64 then .error .tooSmall
      else if Number.greatestSigned64 < n then .error .tooLarge
      else readDigits negative n cs

/-- Reads a signed number of sixty-four bits. -/
def readInt64 : List Char → Except NumberFault Int
  | [] => .error .empty
  | ['+'] => .error .notADigit
  | ['-'] => .error .notADigit
  | '+' :: cs => readDigits false 0 cs
  | '-' :: cs => readDigits true 0 cs
  | cs => readDigits false 0 cs

/-- The greatest number of failed runs that may cancel a job. -/
def greatestRetries : Nat := Number.greatestUnsigned32

/-- Reads the number of failed runs that cancels a job, which is at least one. -/
def readRetries (text : String) : Except Usage Nat :=
  match readInt64 text.toList with
  | .error f => .error (.unreadable f.message)
  | .ok n =>
    if 1 ≤ n ∧ n ≤ greatestRetries then .ok n.toNat
    else .error (.unreadable
      (toString n ++ " is not in 1..=" ++ toString greatestRetries))

/-! ## Paths and addresses -/

/-- Reads a path, which is not empty. -/
def readPath (text : String) : Except Usage Path :=
  if text = "" then .error .invalidValue else .ok ⟨text⟩

/-- Reads a socket address. -/
def readAddress (text : String) : Except Usage Address :=
  match Address.ofText? text with
  | some a => .ok a
  | none => .error (.unreadable "invalid socket address syntax")

end Harvest.Command
