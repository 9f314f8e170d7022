/-
When the argument parser does what it should: keys of the size of its buffer,
the empty list, and keys that could not be copied are what it misses.
-/
import Mathlib.Data.List.Basic
import Barley.ArgParser

namespace Barley

section Strings

theorem splitArg_eq (bytes : List UInt8) :
    splitArg bytes =
      (bytes.idxOf? 61).map fun ep => (bytes.take ep, bytes.drop (ep + 1)) := by
  induction bytes with
  | nil => rfl
  | cons c rest ih =>
      rw [splitArg, List.idxOf?_cons]
      by_cases hc : c = 61
      · rw [if_pos hc, if_pos (beq_iff_eq.mpr hc)]
        rfl
      · rw [if_neg hc, if_neg fun h => hc (beq_iff_eq.mp h), ih, Option.map_map,
          Option.map_map]
        rfl

/-- The parts of an argument. -/
theorem bytes_of_splitArg {bytes key value : List UInt8}
    (h : splitArg bytes = some (key, value)) : bytes = key ++ 61 :: value := by
  induction bytes generalizing key with
  | nil => cases h
  | cons c rest ih =>
      rw [splitArg] at h
      by_cases hc : c = 61
      · rw [if_pos hc] at h
        cases h
        rw [hc, List.nil_append]
      · rw [if_neg hc, Option.map_eq_some_iff] at h
        obtain ⟨⟨key', value'⟩, hsplit, heq⟩ := h
        cases heq
        rw [ih hsplit, List.cons_append]

/-- `strchr` finds the `=` behind the key. -/
theorem idxOf?_of_splitArg {bytes key value : List UInt8}
    (h : splitArg bytes = some (key, value)) :
    bytes.idxOf? 61 = some key.length := by
  rw [splitArg_eq, Option.map_eq_some_iff] at h
  obtain ⟨ep, hep, heq⟩ := h
  obtain ⟨hlt, -⟩ := List.idxOf?_eq_some_iff.mp hep
  cases heq
  rw [hep, List.length_take, Nat.min_eq_left (Nat.le_of_lt hlt)]

theorem drop_of_splitArg {bytes key value : List UInt8}
    (h : splitArg bytes = some (key, value)) :
    bytes.drop (key.length + 1) = value := by
  have hidx := idxOf?_of_splitArg h
  rw [splitArg_eq, hidx, Option.map_some, Option.some.injEq] at h
  exact congrArg Prod.snd h

theorem length_eq_of_sameNoCase {left right : List UInt8}
    (h : sameNoCase left right) : left.length = right.length := by
  have hmap := congrArg List.length (beq_iff_eq.mp h)
  rwa [List.length_map, List.length_map] at hmap

/-- A key that leaves room for a zero comes out of the buffer as it is. -/
theorem bufferString_keyBuffer {arg : List UInt8} (harg : 0 ∉ arg) {size : Nat}
    (hsize : size < argParserKeyMax) :
    bufferString (keyBuffer arg size) = some (arg.take size) := by
  obtain ⟨room, hroom⟩ := Nat.exists_eq_succ_of_ne_zero
    (Nat.sub_ne_zero_of_lt hsize)
  have hkeep : ∀ c ∈ arg.take size, decide (c ≠ 0) = true := fun c hc =>
    decide_eq_true fun hzero => harg (hzero ▸ List.mem_of_mem_take hc)
  rw [keyBuffer, hroom, List.replicate_succ, bufferString,
    if_pos (List.mem_append_right _ List.mem_cons_self),
    List.takeWhile_append_of_pos hkeep, List.takeWhile_cons_of_neg (by decide),
    List.append_nil]

/-- A key as long as the buffer leaves no zero in it. -/
theorem bufferString_full {arg : List UInt8} (harg : 0 ∉ arg) :
    bufferString (keyBuffer arg argParserKeyMax) = none := by
  rw [keyBuffer, Nat.sub_self, List.replicate_zero, List.append_nil,
    bufferString, if_neg fun hzero => harg (List.mem_of_mem_take hzero)]

end Strings

variable {V M : Type}

section Lookup

variable {regs : List (Registration V M)}

/-- A call that succeeds appends the entry of its registration, any other one
nothing. -/
theorem parserAdd_eq (parser : List (ArgParserEntry V M)) (call : AddCall V M) :
    ((frctweakArgParserAdd parser call).1 = .success ↔
        call.registration.isSome) ∧
      (frctweakArgParserAdd parser call).2 =
        parser ++ call.registration.toList.map Registration.entry := by
  obtain ⟨key, func, var, malloc, strdup⟩ := call
  rcases key with _ | key
  · exact ⟨iff_of_false nofun nofun, (List.append_nil parser).symm⟩
  rcases var with _ | var
  · exact ⟨iff_of_false nofun nofun, (List.append_nil parser).symm⟩
  simp only [frctweakArgParserAdd, AddCall.registration]
  by_cases hlong : argParserKeyMax < key.bytes.length
  · rw [if_pos hlong, dif_pos hlong]
    exact ⟨iff_of_false nofun nofun, (List.append_nil parser).symm⟩
  rw [if_neg hlong, dif_neg hlong]
  cases malloc with
  | false => exact ⟨iff_of_false nofun nofun, (List.append_nil parser).symm⟩
  | true => exact ⟨iff_of_true rfl rfl, rfl⟩

/-- The parser holds the entries of the registrations that were accepted. -/
theorem parserAfter_eq (calls : List (AddCall V M)) :
    parserAfter calls =
      (calls.filterMap AddCall.registration).map Registration.entry := by
  suffices h : ∀ parser : List (ArgParserEntry V M),
      calls.foldl (fun parser call => (frctweakArgParserAdd parser call).2)
          parser =
        parser ++ (calls.filterMap AddCall.registration).map Registration.entry by
    rw [parserAfter, h, List.nil_append]
  induction calls with
  | nil => exact fun parser => (List.append_nil parser).symm
  | cons call rest ih =>
      intro parser
      rw [List.foldl_cons, ih, (parserAdd_eq parser call).2, List.append_assoc,
        ← List.map_append]
      cases hreg : call.registration with
      | none => rw [List.filterMap_cons_none hreg, Option.toList_none,
          List.nil_append]
      | some reg => rw [List.filterMap_cons_some hreg, Option.toList_some,
          List.singleton_append]

/-- The loop of the lookup stops at the first entry that has the key, or has
none. -/
theorem lookup_eq (key : List UInt8) (hregs : regs ≠ []) :
    frctweakArgParserEntryLookup key (regs.map Registration.entry) =
      (regs.find? (Registration.stops key)).elim (.ok none) fun reg =>
        if reg.copied then .ok (some reg.entry) else .error .nullKey := by
  induction regs with
  | nil => exact absurd rfl hregs
  | cons reg rest ih =>
      rw [List.map_cons, frctweakArgParserEntryLookup]
      cases hcopied : reg.copied with
      | false =>
          have hkey : reg.entry.key = none := by
            rw [Registration.entry, hcopied]
            rfl
          have hstops : reg.stops key = true := by
            rw [Registration.stops, hcopied]
            rfl
          simp only [hkey, List.find?_cons_of_pos hstops, Option.elim_some,
            hcopied, if_false, Bool.false_eq_true]
      | true =>
          have hkey : reg.entry.key = some reg.key := by
            rw [Registration.entry, hcopied]
            rfl
          have hstops : reg.stops key = sameNoCase key reg.key.bytes := by
            rw [Registration.stops, hcopied]
            rfl
          simp only [hkey, ← hstops, List.isEmpty_map]
          by_cases hsame : reg.stops key = true
          · simp only [if_pos hsame, List.find?_cons_of_pos hsame,
              Option.elim_some, hcopied, if_true]
          · rw [if_neg hsame, List.find?_cons_of_neg hsame]
            cases rest with
            | nil => rfl
            | cons next rest => exact ih (List.cons_ne_nil next rest)

/-- Up to the first entry with the key all keys have been copied. -/
theorem find?_of_copied {key : List UInt8} {reg : Registration V M}
    (hfind : regs.find? (Registration.stops key) = some reg)
    (hcopied : reg.copied = true) :
    regs.find? (Registration.has key) = some reg := by
  rw [List.find?_eq_some_iff_append] at hfind ⊢
  obtain ⟨hhit, front, back, hsplit, hfront⟩ := hfind
  refine ⟨?_, front, back, hsplit, fun other hother => ?_⟩
  · rwa [Registration.stops, hcopied, Bool.not_true, Bool.false_or] at hhit
  · have hmiss := hfront other hother
    rw [Bool.not_eq_true', Registration.stops, Bool.or_eq_false_iff] at hmiss
    rw [hmiss.2, Bool.not_false]

theorem find?_of_none {key : List UInt8}
    (hfind : regs.find? (Registration.stops key) = none) :
    regs.find? (Registration.has key) = none := by
  rw [List.find?_eq_none] at hfind ⊢
  intro reg hreg hhas
  refine hfind reg hreg ?_
  rw [Registration.stops, hhas, Bool.or_true]

/-- No registered key is longer than the buffer. -/
theorem find?_of_long {key : List UInt8} (hlong : argParserKeyMax < key.length) :
    regs.find? (Registration.has key) = none := by
  refine List.find?_eq_none.mpr fun reg _ hsame => ?_
  have hlen := length_eq_of_sameNoCase hsame
  exact Nat.not_lt_of_le reg.short (hlen ▸ hlong)

/-- Only a key that is too long is cut. -/
theorem find?_of_cut {key : List UInt8}
    (hcut : key.length % 2 ^ 32 ≠ key.length) :
    regs.find? (Registration.has key) = none := by
  refine find?_of_long (Nat.lt_of_not_le fun hle => hcut ?_)
  exact Nat.mod_eq_of_lt (Nat.lt_of_le_of_lt hle (by decide))

end Lookup

section Rounds

variable {regs : List (Registration V M)} {arg : CString} {run : ArgRun V M}
  {key value : List UInt8}

/-- An argument without `=` is passed over. -/
theorem parseArg_of_none (parser : List (ArgParserEntry V M))
    (hsplit : splitArg arg.bytes = none) :
    parseArg parser arg run = .ok (.next run) := by
  rw [splitArg_eq, Option.map_eq_none_iff] at hsplit
  simp only [parseArg, hsplit]

theorem parseArg_of_empty (parser : List (ArgParserEntry V M))
    (hsplit : splitArg arg.bytes = some (key, [])) :
    parseArg parser arg run = .ok (.stop Fre.fail.val run) := by
  have hvp := drop_of_splitArg hsplit
  simp only [parseArg, idxOf?_of_splitArg hsplit, hvp, if_true]

/-- What becomes of a key and a value depends on what an `int` keeps of the
key's length. -/
theorem parseArg_of_split (parser : List (ArgParserEntry V M))
    (hsplit : splitArg arg.bytes = some (key, value)) (hvalue : value ≠ [])
    {size : Nat} (hsize : key.length % 2 ^ 32 = size) :
    parseArg parser arg run =
      if 2 ^ 31 ≤ size then .error .overrun
      else if argParserKeyMax < size then .ok (.stop Fre.notfound.val run)
      else if size = argParserKeyMax then .error .unterminated
      else
        applyFound (frctweakArgParserEntryLookup (key.take size) parser) value
          run := by
  have hbound : size < 2 ^ 32 := hsize ▸ Nat.mod_lt _ (by decide)
  have hlen : size ≤ key.length := hsize ▸ Nat.mod_le _ _
  have htoInt : (BitVec.ofNat 32 key.length).toInt =
      if 2 * size < 2 ^ 32 then (size : Int) else (size : Int) - 2 ^ 32 := by
    rw [BitVec.toInt_eq_toNat_cond, BitVec.toNat_ofNat, hsize]
    rfl
  simp only [parseArg, idxOf?_of_splitArg hsplit, drop_of_splitArg hsplit,
    if_neg hvalue]
  by_cases hneg : 2 ^ 31 ≤ size
  · rw [if_neg (by omega)] at htoInt
    rw [htoInt, if_pos hneg, if_neg (by rw [argParserKeyMax]; omega),
      if_pos (by omega)]
  rw [if_pos (by omega)] at htoInt
  rw [htoInt, if_neg hneg, Int.toNat_natCast]
  by_cases hlong : argParserKeyMax < size
  · rw [if_pos (by exact_mod_cast hlong), if_pos hlong]
  rw [if_neg (by exact_mod_cast hlong), if_neg hlong, if_neg (by omega)]
  by_cases hfull : size = argParserKeyMax
  · rw [if_pos hfull, hfull, bufferString_full arg.terminated]
  · have hroom : size < argParserKeyMax :=
      Nat.lt_of_le_of_ne (Nat.le_of_not_lt hlong) hfull
    have htake : arg.bytes.take size = key.take size := by
      rw [bytes_of_splitArg hsplit, List.take_append_of_le_length hlen]
    have hstring := bufferString_keyBuffer arg.terminated hroom
    rw [htake] at hstring
    simp only [if_neg hfull, hstring]

/-- An allowed argument does what it should. -/
theorem parseArg_of_allowed (h : ArgAllowed regs arg) :
    parseArg (regs.map Registration.entry) arg run =
      .ok (applyArg regs arg run) := by
  rw [applyArg]
  cases hsplit : splitArg arg.bytes with
  | none => exact parseArg_of_none _ hsplit
  | some parts =>
      obtain ⟨key, value⟩ := parts
      by_cases hvalue : value = []
      · subst hvalue
        exact parseArg_of_empty _ hsplit
      obtain ⟨hsigned, hroom⟩ := h key value hsplit hvalue
      simp only [if_neg hvalue]
      rw [parseArg_of_split _ hsplit hvalue rfl, if_neg (Nat.not_le.mpr hsigned)]
      by_cases hlong : argParserKeyMax < key.length % 2 ^ 32
      · rw [if_pos hlong,
          find?_of_long (Nat.lt_of_lt_of_le hlong (Nat.mod_le _ _))]
      obtain ⟨hlt, hregs, hfound⟩ := hroom (Nat.le_of_not_lt hlong)
      rw [if_neg hlong, if_neg (Nat.ne_of_lt hlt), lookup_eq _ hregs]
      cases hfind : regs.find?
        (Registration.stops (key.take (key.length % 2 ^ 32))) with
      | none =>
          have hnone : regs.find? (Registration.has key) = none := by
            by_cases hcut : key.length % 2 ^ 32 = key.length
            · rw [hcut, List.take_length] at hfind
              exact find?_of_none hfind
            · exact find?_of_cut hcut
          simp only [hnone, Option.elim_none, applyFound]
      | some reg =>
          obtain ⟨hcopied, hwhole⟩ := hfound reg hfind
          rw [hwhole, List.take_length] at hfind
          simp only [hcopied, if_true, find?_of_copied hfind hcopied,
            Option.elim_some, applyFound]

/-- Something is missing for the lookup of a key that is not allowed, or an
entry is found by a key that has been cut. -/
theorem lookup_of_not_allowed (hkey : ¬ KeyAllowed regs key) {size : Nat}
    (hsize : key.length % 2 ^ 32 = size) (hsigned : size < 2 ^ 31)
    (hroom : size < argParserKeyMax) :
    (∃ fault, frctweakArgParserEntryLookup (key.take size)
        (regs.map Registration.entry) = .error fault) ∨
      (∃ entry, frctweakArgParserEntryLookup (key.take size)
        (regs.map Registration.entry) = .ok (some entry)) ∧
        size ≠ key.length := by
  rw [KeyAllowed] at hkey
  simp only [hsize] at hkey
  by_cases hregs : regs = []
  · subst hregs
    exact Or.inl ⟨.nullHead, rfl⟩
  rw [lookup_eq _ hregs]
  cases hfind : regs.find? (Registration.stops (key.take size)) with
  | none =>
      refine absurd ⟨hsigned, fun _ => ⟨hroom, hregs, fun reg hreg => ?_⟩⟩ hkey
      rw [hfind] at hreg
      cases hreg
  | some reg =>
      rw [Option.elim_some]
      cases hcopied : reg.copied with
      | false => exact Or.inl ⟨.nullKey, if_neg Bool.false_ne_true⟩
      | true =>
          refine Or.inr ⟨⟨reg.entry, if_pos rfl⟩, fun hwhole => ?_⟩
          refine hkey ⟨hsigned, fun _ => ⟨hroom, hregs, fun reg' hreg' => ?_⟩⟩
          rw [hfind, Option.some.injEq] at hreg'
          exact hreg' ▸ ⟨hcopied, hwhole⟩

/-- Another argument is not parsed, or a handler is called for it where there
should be no call. -/
theorem parseArg_of_not_allowed (h : ¬ ArgAllowed regs arg) :
    (∃ fault, parseArg (regs.map Registration.entry) arg run = .error fault) ∨
      ∃ (entry : ArgParserEntry V M) (value : List UInt8) (code : Int),
        parseArg (regs.map Registration.entry) arg run =
          .ok (entry.apply value run) ∧
        applyArg regs arg run = .stop code run := by
  have hex : ∃ key value, splitArg arg.bytes = some (key, value) ∧ value ≠ [] ∧
      ¬ KeyAllowed regs key := by
    by_contra hall
    refine h fun key value hsplit hvalue => ?_
    by_contra hkey
    exact hall ⟨key, value, hsplit, hvalue, hkey⟩
  obtain ⟨key, value, hsplit, hvalue, hkey⟩ := hex
  rw [parseArg_of_split _ hsplit hvalue rfl, applyArg]
  simp only [hsplit, if_neg hvalue]
  by_cases hsigned : 2 ^ 31 ≤ key.length % 2 ^ 32
  · exact Or.inl ⟨.overrun, if_pos hsigned⟩
  rw [if_neg hsigned]
  have hroom : key.length % 2 ^ 32 ≤ argParserKeyMax := by
    by_contra hlong
    exact hkey ⟨Nat.lt_of_not_le hsigned, fun hle => absurd hle hlong⟩
  rw [if_neg (Nat.not_lt.mpr hroom)]
  by_cases hfull : key.length % 2 ^ 32 = argParserKeyMax
  · exact Or.inl ⟨.unterminated, if_pos hfull⟩
  rw [if_neg hfull]
  rcases lookup_of_not_allowed hkey rfl (Nat.lt_of_not_le hsigned)
      (Nat.lt_of_le_of_ne hroom hfull) with
    ⟨fault, hfault⟩ | ⟨⟨entry, hentry⟩, hcut⟩
  · rw [hfault]
    exact Or.inl ⟨fault, rfl⟩
  · rw [hentry, find?_of_cut hcut]
    exact Or.inr ⟨entry, value, Fre.notfound.val, rfl, rfl⟩

end Rounds

section Runs

variable {parser : List (ArgParserEntry V M)} {regs : List (Registration V M)}

/-- The run with which a round ends. -/
def ArgStep.run : ArgStep V M → ArgRun V M
  | .next run => run
  | .stop _ run => run

theorem apply_applied (entry : ArgParserEntry V M) (value : List UInt8)
    (run : ArgRun V M) :
    (entry.apply value run).run.applied =
      run.applied ++ [(entry.var, value)] := by
  rw [ArgParserEntry.apply]
  split_ifs <;> rfl

theorem applyFound_applied
    {found : Except ParserFault (Option (ArgParserEntry V M))}
    {value : List UInt8} {run : ArgRun V M} {step : ArgStep V M}
    (h : applyFound found value run = .ok step) :
    run.applied.length ≤ step.run.applied.length := by
  rcases found with fault | _ | entry
  · cases h
  · cases h
    exact Nat.le_refl _
  · cases h
    rw [apply_applied, List.length_append]
    exact Nat.le_add_right _ _

/-- A round only adds to the calls of handlers. -/
theorem parseArg_applied {arg : CString} {run : ArgRun V M} {step : ArgStep V M}
    (h : parseArg parser arg run = .ok step) :
    run.applied.length ≤ step.run.applied.length := by
  cases hsplit : splitArg arg.bytes with
  | none =>
      rw [parseArg_of_none parser hsplit] at h
      cases h
      exact Nat.le_refl _
  | some parts =>
      obtain ⟨key, value⟩ := parts
      by_cases hvalue : value = []
      · subst hvalue
        rw [parseArg_of_empty parser hsplit] at h
        cases h
        exact Nat.le_refl _
      rw [parseArg_of_split parser hsplit hvalue rfl] at h
      split_ifs at h
      · cases h
        exact Nat.le_refl _
      · exact applyFound_applied h

theorem parsing_applied {argv : List CString} {run : ArgRun V M}
    {result : Int × ArgRun V M}
    (h : frctweakArgParsing parser argv run = .ok result) :
    run.applied.length ≤ result.2.applied.length := by
  induction argv generalizing run with
  | nil =>
      cases h
      exact Nat.le_refl _
  | cons arg rest ih =>
      rw [frctweakArgParsing] at h
      cases hstep : parseArg parser arg run with
      | error fault =>
          rw [hstep] at h
          cases h
      | ok step =>
          have hle := parseArg_applied hstep
          rw [hstep] at h
          cases step with
          | stop code run' =>
              cases h
              exact hle
          | next run' => exact Nat.le_trans hle (ih h)

end Runs

/-- Whatever has been registered, the arguments do what they should, with no
access that is not allowed, exactly if each key that is reached can be looked
up. -/
theorem argParsing_applies_iff (calls : List (AddCall V M)) (argv : List CString)
    (run : ArgRun V M) :
    frctweakArgParsing (parserAfter calls) argv run =
        .ok (applyArgs (calls.filterMap AddCall.registration) argv run) ↔
      ArgsAllowed (calls.filterMap AddCall.registration) argv run := by
  rw [parserAfter_eq]
  induction argv generalizing run with
  | nil => exact iff_of_true rfl trivial
  | cons arg rest ih =>
      rw [frctweakArgParsing, applyArgs, ArgsAllowed]
      by_cases hallowed : ArgAllowed (calls.filterMap AddCall.registration) arg
      · rw [parseArg_of_allowed hallowed, and_iff_right hallowed]
        cases applyArg (calls.filterMap AddCall.registration) arg run with
        | stop code run' =>
            exact iff_of_true rfl fun next hnext => (by cases hnext)
        | next run' =>
            refine (ih run').trans ⟨fun h next hnext => ?_, fun h => h run' rfl⟩
            cases hnext
            exact h
      refine iff_of_false ?_ fun h => hallowed h.1
      rcases parseArg_of_not_allowed hallowed with
        ⟨fault, hfault⟩ | ⟨entry, value, code, happly, hstop⟩
      · rw [hfault]
        nofun
      rw [happly, hstop]
      have hgrows := apply_applied entry value run
      cases hstep : entry.apply value run with
      | stop code' run' =>
          intro h
          cases h
          rw [hstep] at hgrows
          exact absurd hgrows (by simp [ArgStep.run])
      | next run' =>
          intro h
          have hle := parsing_applied h
          rw [hstep] at hgrows
          rw [show run'.applied = _ from hgrows, List.length_append] at hle
          exact absurd hle (Nat.not_succ_le_self _)

/-- A key of 32 bytes can be registered but not be given. -/
def longKey : CString := ⟨List.replicate 32 107, by decide⟩

theorem longKey_not_applied :
    frctweakArgParsing
        (parserAfter [⟨some longKey, fun _ _ _ => (0, ()), some (), true, true⟩])
        [⟨longKey.bytes ++ [61, 49], by decide⟩] ⟨(), []⟩ ≠
      .ok (applyArgs
        (List.filterMap AddCall.registration
          [⟨some longKey, fun _ _ _ => (0, ()), some (), true, true⟩])
        [⟨longKey.bytes ++ [61, 49], by decide⟩] ⟨(), []⟩) := by
  intro h
  cases h

end Barley
