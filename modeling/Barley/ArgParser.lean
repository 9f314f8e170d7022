/-
The parser of `key=value` arguments: entries with handlers are registered under
their keys, and each argument is applied to the first entry with its key.
-/
import Mathlib.Algebra.Group.Nat.Defs
import Barley.FrcTypes

namespace Barley

/-- The bytes of a string before its terminating zero. -/
structure CString where
  bytes : List UInt8
  terminated : 0 ∉ bytes

/-- `ARG_PARSER_KEY_MAX`. -/
def argParserKeyMax : Nat := 32

/-- The value of a return code. -/
def Fre.val (code : Fre) : Int := code.ctorIdx

/-- `tolower` in the C locale. -/
def lowerCase (c : UInt8) : UInt8 := if 65 ≤ c ∧ c ≤ 90 then c + 32 else c

/-- `strcasecmp` finds no difference. -/
def sameNoCase (left right : List UInt8) : Bool :=
  left.map lowerCase == right.map lowerCase

/-- What a buffer holds as a string; there is none without a zero in it. -/
def bufferString (buffer : List UInt8) : Option (List UInt8) :=
  if 0 ∈ buffer then some (buffer.takeWhile fun c => c ≠ 0) else none

variable {V M : Type}

/-- `arg_parser_entry_t`.  The handler gets the value and the variable, and may
write to the memory. -/
structure ArgParserEntry (V M : Type) where
  key : Option CString
  func : List UInt8 → V → M → Int × M
  var : V

/-- A call of `frctweak_arg_parser_add`, with what the allocations bring.  The
key and the variable may be null, which the code checks; the handler, which it
does not check, is a function. -/
structure AddCall (V M : Type) where
  key : Option CString
  func : List UInt8 → V → M → Int × M
  var : Option V
  malloc : Bool
  strdup : Bool

/-- `frctweak_arg_parser_add`.  The copy of the key is not checked. -/
def frctweakArgParserAdd (parser : List (ArgParserEntry V M))
    (call : AddCall V M) : Fre × List (ArgParserEntry V M) :=
  match call.key, call.var with
  | some key, some var =>
      if argParserKeyMax < key.bytes.length then (.param, parser)
      else if call.malloc = false then (.memory, parser)
      else
        (.success, parser ++
          [⟨if call.strdup then some key else none, call.func, var⟩])
  | _, _ => (.param, parser)

/-- The parser after these calls, the first after
`frctweak_arg_parser_init`. -/
def parserAfter (calls : List (AddCall V M)) : List (ArgParserEntry V M) :=
  calls.foldl (fun parser call => (frctweakArgParserAdd parser call).2) []

/-- Reads and writes that are not allowed: through a null head or key, behind
the key buffer for a terminating zero, and behind it when copying. -/
inductive ParserFault where
  | nullHead
  | nullKey
  | unterminated
  | overrun
deriving DecidableEq, Repr

/-- `frctweak_arg_parser_entry_lookup`, whose loop looks at an entry before it
asks whether there is one. -/
def frctweakArgParserEntryLookup (key : List UInt8) :
    List (ArgParserEntry V M) → Except ParserFault (Option (ArgParserEntry V M))
  | [] => .error .nullHead
  | entry :: rest =>
      match entry.key with
      | none => .error .nullKey
      | some found =>
          if sameNoCase key found.bytes then .ok (some entry)
          else if rest.isEmpty then .ok none
          else frctweakArgParserEntryLookup key rest

/-- The memory, and the variables that handlers were called for with their
values. -/
structure ArgRun (V M : Type) where
  memory : M
  applied : List (V × List UInt8)

/-- One round of the loop goes on to the next argument, or returns. -/
inductive ArgStep (V M : Type) where
  | next (run : ArgRun V M)
  | stop (code : Int) (run : ArgRun V M)

/-- The call of a handler; the loop goes on if it returns `FRE_SUCCESS`. -/
def ArgParserEntry.apply (entry : ArgParserEntry V M) (value : List UInt8)
    (run : ArgRun V M) : ArgStep V M :=
  let result := entry.func value entry.var run.memory
  let run' : ArgRun V M := ⟨result.2, run.applied ++ [(entry.var, value)]⟩
  if result.1 = Fre.success.val then .next run' else .stop result.1 run'

/-- The key buffer after `memset` and `memcpy`. -/
def keyBuffer (arg : List UInt8) (keySz : Nat) : List UInt8 :=
  arg.take keySz ++ List.replicate (argParserKeyMax - keySz) 0

/-- The end of a round, with what the lookup has found. -/
def applyFound (found : Except ParserFault (Option (ArgParserEntry V M)))
    (value : List UInt8) (run : ArgRun V M) : Except ParserFault (ArgStep V M) :=
  match found with
  | .error fault => .error fault
  | .ok none => .ok (.stop Fre.notfound.val run)
  | .ok (some entry) => .ok (entry.apply value run)

/-- One round of `frctweak_arg_parsing`; `key_sz` is an `int`. -/
def parseArg (parser : List (ArgParserEntry V M)) (arg : CString)
    (run : ArgRun V M) : Except ParserFault (ArgStep V M) :=
  match arg.bytes.idxOf? 61 with
  | none => .ok (.next run)
  | some ep =>
      let vp := arg.bytes.drop (ep + 1)
      let keySz := (BitVec.ofNat 32 ep).toInt
      if vp = [] then .ok (.stop Fre.fail.val run)
      else if argParserKeyMax < keySz then .ok (.stop Fre.notfound.val run)
      else if keySz < 0 then .error .overrun
      else
        match bufferString (keyBuffer arg.bytes keySz.toNat) with
        | none => .error .unterminated
        | some key =>
            applyFound (frctweakArgParserEntryLookup key parser) vp run

/-- `frctweak_arg_parsing`. -/
def frctweakArgParsing (parser : List (ArgParserEntry V M)) :
    List CString → ArgRun V M → Except ParserFault (Int × ArgRun V M)
  | [], run => .ok (Fre.success.val, run)
  | arg :: rest, run =>
      match parseArg parser arg run with
      | .error fault => .error fault
      | .ok (.stop code run) => .ok (code, run)
      | .ok (.next run) => frctweakArgParsing parser rest run

/-- A registration that has been accepted, with its whole key and whether that
could be copied. -/
structure Registration (V M : Type) where
  key : CString
  func : List UInt8 → V → M → Int × M
  var : V
  copied : Bool
  short : key.bytes.length ≤ argParserKeyMax

/-- The entry that the code makes of it. -/
def Registration.entry (reg : Registration V M) : ArgParserEntry V M :=
  ⟨if reg.copied then some reg.key else none, reg.func, reg.var⟩

/-- The registration is one for this key. -/
def Registration.has (key : List UInt8) (reg : Registration V M) : Bool :=
  sameNoCase key reg.key.bytes

/-- The lookup of the key does not go on behind the registration. -/
def Registration.stops (key : List UInt8) (reg : Registration V M) : Bool :=
  !reg.copied || reg.has key

/-- The registration of a call that is accepted. -/
def AddCall.registration (call : AddCall V M) : Option (Registration V M) :=
  match call.key, call.var with
  | some key, some var =>
      if hlong : argParserKeyMax < key.bytes.length then none
      else if call.malloc = false then none
      else some ⟨key, call.func, var, call.strdup, Nat.le_of_not_lt hlong⟩
  | _, _ => none

/-- An argument as key and value, split at the first `=`. -/
def splitArg : List UInt8 → Option (List UInt8 × List UInt8)
  | [] => none
  | c :: rest =>
      if c = 61 then some ([], rest)
      else (splitArg rest).map fun split => (c :: split.1, split.2)

/-- What an argument should do. -/
def applyArg (regs : List (Registration V M)) (arg : CString)
    (run : ArgRun V M) : ArgStep V M :=
  match splitArg arg.bytes with
  | none => .next run
  | some (key, value) =>
      if value = [] then .stop Fre.fail.val run
      else
        match regs.find? (Registration.has key) with
        | none => .stop Fre.notfound.val run
        | some reg => reg.entry.apply value run

/-- What the arguments should do, one after the other. -/
def applyArgs (regs : List (Registration V M)) :
    List CString → ArgRun V M → Int × ArgRun V M
  | [], run => (Fre.success.val, run)
  | arg :: rest, run =>
      match applyArg regs arg run with
      | .stop code run => (code, run)
      | .next run => applyArgs regs rest run

/-- A key can be looked up.  What an `int` keeps of its length is not negative;
and if it does not exceed the buffer, it leaves room for a zero, there is an
entry to start with, and the lookup of the key, cut to this size, does not stop
at an entry without a key, nor at any if the key has been cut. -/
def KeyAllowed (regs : List (Registration V M)) (key : List UInt8) : Prop :=
  let size := key.length % 2 ^ 32
  size < 2 ^ 31 ∧
    (size ≤ argParserKeyMax →
      size < argParserKeyMax ∧ regs ≠ [] ∧
        ∀ reg, regs.find? (Registration.stops (key.take size)) = some reg →
          reg.copied = true ∧ size = key.length)

def ArgAllowed (regs : List (Registration V M)) (arg : CString) : Prop :=
  ∀ key value, splitArg arg.bytes = some (key, value) → value ≠ [] →
    KeyAllowed regs key

/-- Every key that is reached can be looked up. -/
def ArgsAllowed (regs : List (Registration V M)) :
    List CString → ArgRun V M → Prop
  | [], _ => True
  | arg :: rest, run =>
      ArgAllowed regs arg ∧
        ∀ next, applyArg regs arg run = .next next → ArgsAllowed regs rest next

end Barley
