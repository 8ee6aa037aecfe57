import ScriptManifest.Proofs.RepeatedArguments
import Mathlib.Data.List.Count

/-!
The spellings of a command line. What a line says are its parts, and every part has spellings
(`Spells`). A line that spells parts is read as these parts, whatever their order
(`takeAll_of_parts`), unless it gives something twice: then it is not read to its end
(`takeAll_of_repeated`).
-/

namespace ScriptManifest.CommandLine

/-! ### Parts and their spellings -/

/-- What a command line says with one of its arguments, or with a letter in it. -/
inductive Part
  | input (value : String)
  | option (option : Valued) (value : String)
  | pretty
  | verbose
deriving DecidableEq, Repr

def Part.kind? : Part → Option Kind
  | .input _ => some .input
  | .option o _ => some (.option o)
  | .pretty => some .pretty
  | .verbose => none

def givenIn (kind : Kind) (parts : List Part) : Nat := parts.countP (·.kind? = some kind)

theorem givenIn_cons (kind : Kind) (p : Part) (ps : List Part) :
    givenIn kind (p :: ps) = givenIn kind ps + if p.kind? = some kind then 1 else 0 := by
  simp [givenIn, List.countP_cons]

theorem givenIn_append (kind : Kind) (ps qs : List Part) :
    givenIn kind (ps ++ qs) = givenIn kind ps + givenIn kind qs := by
  simp [givenIn]

theorem givenIn_perm {ps qs : List Part} (h : ps.Perm qs) (kind : Kind) :
    givenIn kind ps = givenIn kind qs :=
  h.countP_eq _

theorem givenIn_replicate_verbose (kind : Kind) (n : Nat) :
    givenIn kind (List.replicate n .verbose) = 0 := by
  simp [givenIn, List.countP_replicate, Part.kind?]

def Arguments.parts (a : Arguments) : List Part :=
  .input a.input :: (a.output.toList.map (.option .output) ++ a.config.toList.map (.option .config) ++
    List.replicate a.pretty.toNat .pretty ++ List.replicate a.verbosity .verbose)

/-- A value that needs no care: there is something, and it starts with neither a dash nor an equals
sign. -/
def IsValue (value : String) : Prop := ∃ c cs, value.toList = c :: cs ∧ c ≠ '-' ∧ c ≠ '='

/-- The spellings of a part, the output together with the verbosity flags in front of it. -/
inductive Spells : List Part → List String → Prop
  | input {value : String} (h : IsValue value) : Spells [.input value] [value]
  | pretty : Spells [.pretty] ["--pretty"]
  | verbose : Spells [.verbose] ["--verbose"]
  | letters (n : Nat) : Spells (List.replicate (n + 1) .verbose) [bundle (n + 1) []]
  | long (option : Valued) {value : String} (h : IsValue value) :
    Spells [.option option value] ["--" ++ option.name, value]
  | longEquals (option : Valued) {value : String} (h : IsValue value) :
    Spells [.option option value] ["--" ++ option.name ++ "=" ++ value]
  | short (n : Nat) {value : String} (h : IsValue value) :
    Spells (List.replicate n .verbose ++ [.option .output value]) [bundle n ['o'], value]
  | shortAttached (n : Nat) {value : String} (h : IsValue value) :
    Spells (List.replicate n .verbose ++ [.option .output value]) [bundle n ('o' :: value.toList)]
  | shortEquals (n : Nat) {value : String} (h : IsValue value) :
    Spells (List.replicate n .verbose ++ [.option .output value])
      [bundle n ('o' :: '=' :: value.toList)]

/-- A line that says its parts one after the other, each in one of its spellings. -/
inductive Says : List Part → List String → Prop
  | nil : Says [] []
  | cons {ps qs : List Part} {chunk args : List String} (h : Spells ps chunk) (hargs : Says qs args) :
    Says (ps ++ qs) (chunk ++ args)

theorem IsValue.ne_empty {value : String} (h : IsValue value) : value ≠ "" := by
  rintro rfl
  obtain ⟨c, cs, htext, -⟩ := h
  cases htext

theorem IsValue.head?_ne_dash {value : String} (h : IsValue value) :
    value.toList.head? ≠ some '-' := by
  obtain ⟨c, cs, htext, hc, -⟩ := h
  simpa [htext] using hc

theorem Spells.exists_last {ps : List Part} {chunk : List String} (h : Spells ps chunk) :
    ∃ n p, ps = List.replicate n .verbose ++ [p] := by
  cases h with
  | letters n => exact ⟨n, .verbose, List.replicate_succ'⟩
  | short n h => exact ⟨n, _, rfl⟩
  | shortAttached n h => exact ⟨n, _, rfl⟩
  | shortEquals n h => exact ⟨n, _, rfl⟩
  | _ => exact ⟨0, _, rfl⟩

namespace State

def add (s : State) : Part → State
  | .input value => { s with input := some value, hasInput := true }
  | .option option value => s.withValue option value
  | .pretty => { s with pretty := true }
  | .verbose => { s with verbosity := min 255 (s.verbosity + 1) }

/-! ### Lines that spell their parts -/

structure Settled (s : State) : Prop where
  pending : s.pending = .nothing
  flags : s.trailing = false

/-- Together with what the state has been given, parts give nothing twice. -/
def Fits (s : State) (parts : List Part) : Prop :=
  ∀ kind, s.claimed kind + givenIn kind parts ≤ 1

def HasRoom (s : State) (p : Part) : Prop := ∀ kind, p.kind? = some kind → s.stored kind = false

theorem Settled.settle_eq {s : State} (h : s.Settled) : s.settle = .ok s := by
  cases s
  cases h.pending
  rfl

theorem Settled.add {s : State} (h : s.Settled) (p : Part) : (s.add p).Settled := by
  cases p with
  | option option value =>
    exact ⟨(pending_withValue s option value).trans h.pending,
      (trailing_withValue s option value).trans h.flags⟩
  | _ => exact ⟨h.pending, h.flags⟩

theorem Settled.foldl_add {s : State} (h : s.Settled) (ps : List Part) :
    (ps.foldl State.add s).Settled := by
  induction ps generalizing s with
  | nil => exact h
  | cons p ps ih => exact ih (h.add p)

theorem stored_add (s : State) (p : Part) (kind : Kind) :
    (s.add p).stored kind = (s.stored kind || decide (p.kind? = some kind)) := by
  cases p with
  | option option value =>
    rw [add, stored_withValue]
    simp only [Part.kind?, Option.some.injEq, eq_comm]
  | _ => cases kind <;> simp [add, stored, State.value, Part.kind?]

theorem claimed_foldl_add {s : State} (hs : s.Settled) {ps : List Part} (h : s.Fits ps)
    (kind : Kind) : (ps.foldl add s).claimed kind = s.claimed kind + givenIn kind ps := by
  induction ps generalizing s with
  | nil => rfl
  | cons p ps ih =>
    have hadd : ∀ k, (s.add p).claimed k = s.claimed k + if p.kind? = some k then 1 else 0 := by
      intro k
      have hk := h k
      rw [givenIn_cons] at hk
      rw [claimed_eq_toNat (hs.add p).pending, claimed_eq_toNat hs.pending, stored_add]
      rw [claimed_eq_toNat hs.pending] at hk
      by_cases hp : p.kind? = some k
      · rw [if_pos hp] at hk
        cases hstored : s.stored k with
        | false => simp [hp]
        | true =>
          rw [hstored, Bool.toNat_true] at hk
          omega
      · simp [hp]
    have hfits : (s.add p).Fits ps := by
      intro k
      have hk := h k
      rw [givenIn_cons] at hk
      have := hadd k
      omega
    rw [List.foldl_cons, ih (hs.add p) hfits, hadd, givenIn_cons]
    omega

theorem fits_append_iff {s : State} (hs : s.Settled) {ps : List Part} (h : s.Fits ps)
    (qs : List Part) : s.Fits (ps ++ qs) ↔ (ps.foldl add s).Fits qs := by
  refine forall_congr' fun kind => ?_
  rw [claimed_foldl_add hs h, givenIn_append, Nat.add_assoc]

theorem fits_append_singleton_iff {s : State} (hs : s.Settled) (n : Nat) (p : Part) :
    s.Fits (List.replicate n .verbose ++ [p]) ↔ s.HasRoom p := by
  refine forall_congr' fun kind => ?_
  rw [claimed_eq_toNat hs.pending, givenIn_append, givenIn_replicate_verbose, givenIn_cons]
  by_cases hp : p.kind? = some kind
  · cases s.stored kind <;> simp [hp, givenIn]
  · simpa [hp, givenIn] using Bool.toNat_le (s.stored kind)

theorem fits_iff_of_spells {s : State} (hs : s.Settled) {ps : List Part} {chunk : List String}
    (h : Spells ps chunk) : s.Fits ps ↔ ∀ p ∈ ps, s.HasRoom p := by
  obtain ⟨n, p, rfl⟩ := h.exists_last
  rw [fits_append_singleton_iff hs]
  constructor
  · intro hroom q hq
    obtain hq | hq := List.mem_append.mp hq
    · obtain rfl := List.eq_of_mem_replicate hq
      intro kind hkind
      cases hkind
    · obtain rfl := List.mem_singleton.mp hq
      exact hroom
  · exact fun hroom => hroom p (by simp)

/-! ### One spelling -/

def holding (s : State) (pending : Pending) : State := { s with pending := pending }

theorem Settled.holding_nothing {s : State} (h : s.Settled) : s.holding .nothing = s := by
  cases s
  cases h.pending
  rfl

theorem takeValued_attached {s : State} (hs : s.Settled) (option : Valued) (value : String) :
    s.takeValued option (some value) = s.setValue option value := by
  rw [takeValued, hs.settle_eq]

theorem takeValued_bare {s : State} (hs : s.Settled) (option : Valued) :
    s.takeValued option none = .ok (s.holding (.bare option)) := by
  rw [takeValued, hs.settle_eq]
  rfl

theorem take_value {s : State} (hs : s.Settled) (option : Valued) {value : String}
    (h : IsValue value) :
    (s.holding (.bare option)).take value = .ok (s.holding (.valued option value)) := by
  rw [take_word (s := s.holding (.bare option)) hs.flags (.inr h.head?_ne_dash), takeWord_eq]
  exact if_neg (by simp [holding, hs.flags])

theorem takeAll_detached {s t : State} (ht : t.Settled) {option : Valued} {a value : String}
    (ha : s.take a = t.takeValued option none) (h : IsValue value) (args : List String) :
    s.takeAll (a :: value :: args) = (t.holding (.valued option value)).takeAll args := by
  rw [takeValued_bare ht] at ha
  rw [takeAll, ha]
  simp only
  rw [takeAll, take_value ht option h]

theorem settle_valued {s : State} (hs : s.Settled) (option : Valued) (value : String) :
    (s.holding (.valued option value)).settle = s.setValue option value := by
  change (s.holding .nothing).setValue option value = _
  rw [hs.holding_nothing]

theorem takeShort_replicate_append {s : State} (hs : s.Settled) (n : Nat) (rest : List Char) :
    s.takeShort (List.replicate n 'v' ++ rest) =
      ((List.replicate n .verbose).foldl add s).takeShort rest := by
  induction n generalizing s with
  | zero => rfl
  | succ n ih =>
    rw [List.replicate_succ, List.cons_append, takeShort, List.replicate_succ, List.foldl_cons]
    have hflag : s.takeFlag .verbose = .ok (s.add .verbose) := by
      rw [takeFlag, hs.settle_eq]
      rfl
    simp only [hflag]
    exact ih (hs.add .verbose)

theorem take_bundle_of_settled {s : State} (hs : s.Settled) (n : Nat) (rest : List Char) :
    s.take (bundle n ('o' :: rest)) =
      ((List.replicate n .verbose).foldl add s).takeShort ('o' :: rest) := by
  rw [take_bundle hs.flags, takeShort_replicate_append hs]

theorem takeShort_attached (s : State) {value : String} (h : IsValue value) :
    s.takeShort ('o' :: value.toList) = s.takeValued .output (some value) := by
  obtain ⟨c, cs, htext, -, hc⟩ := h
  rw [htext, takeShort, ← htext, String.ofList_toList]
  · rintro ⟨⟩
  · rintro value' ⟨⟩
    exact hc rfl

theorem takeShort_equals (s : State) (value : String) :
    s.takeShort ('o' :: '=' :: value.toList) = s.takeValued .output (some value) := by
  rw [takeShort, String.ofList_toList]

theorem takeAll_cons_of_take {s s' : State} {a : String} (h : s.take a = .ok s')
    (args : List String) :
    s.takeAll (a :: args) = s'.takeAll args := by
  rw [takeAll, h]

theorem setValue_of_hasRoom {s : State} {option : Valued} {value : String} (h : IsValue value)
    (hroom : s.HasRoom (.option option value)) :
    s.setValue option value = .ok (s.add (.option option value)) := by
  refine setValue_eq_ok_iff.mpr ⟨?_, h.ne_empty, rfl⟩
  simpa [stored] using hroom (.option option) rfl

theorem stored_foldl_verbose (s : State) (n : Nat) (kind : Kind) :
    ((List.replicate n .verbose).foldl add s).stored kind = s.stored kind := by
  induction n generalizing s with
  | zero => rfl
  | succ n ih =>
    rw [List.replicate_succ, List.foldl_cons, ih, stored_add]
    simp [Part.kind?]

theorem hasRoom_foldl_verbose {s : State} {p : Part} (h : s.HasRoom p) (n : Nat) :
    ((List.replicate n .verbose).foldl add s).HasRoom p := by
  intro kind hkind
  rw [stored_foldl_verbose]
  exact h kind hkind

theorem takeFlag_pretty {s : State} (hs : s.Settled) (hroom : s.HasRoom .pretty) :
    s.takeFlag .pretty = .ok (s.add .pretty) := by
  have hplain : s.pretty = false := hroom .pretty rfl
  simp only [takeFlag, hs.settle_eq, hplain]
  rfl

theorem takeAll_input {s : State} (hs : s.Settled) {value : String} (h : IsValue value)
    (hroom : s.HasRoom (.input value)) (args : List String) :
    s.takeAll (value :: args) = (s.add (.input value)).takeAll args := by
  have hno : s.hasInput = false := hroom .input rfl
  have htake : s.take value = .ok { s with pending := .input value, hasInput := true } := by
    rw [take_word hs.flags (.inr h.head?_ne_dash), takeWord_eq, hs.pending]
    simp only [takeInput, hno, hs.settle_eq]
    rfl
  refine (takeAll_cons_of_take htake args).trans (takeAll_of_settle ?_ args)
  simp only [settle, String.isEmpty_iff, h.ne_empty, if_false, add, hs.pending]

theorem takeAll_valued {s : State} (hs : s.Settled) {option : Valued} {value : String}
    (h : IsValue value) (hroom : s.HasRoom (.option option value)) (args : List String) :
    (s.holding (.valued option value)).takeAll args =
      (s.add (.option option value)).takeAll args :=
  takeAll_of_settle ((settle_valued hs option value).trans (setValue_of_hasRoom h hroom)) args

theorem takeAll_of_spells {ps : List Part} {chunk : List String} (h : Spells ps chunk) {s : State}
    (hs : s.Settled) (hroom : ∀ p ∈ ps, s.HasRoom p) (args : List String) :
    s.takeAll (chunk ++ args) = (ps.foldl add s).takeAll args := by
  cases h with
  | input h => exact takeAll_input hs h (hroom _ (by simp)) args
  | pretty =>
    refine takeAll_cons_of_take ?_ args
    rw [take_pretty hs.flags, takeFlag_pretty hs (hroom _ (by simp))]
    rfl
  | verbose =>
    refine takeAll_cons_of_take ?_ args
    rw [take_long hs.flags (show "--verbose".toList = '-' :: '-' :: 'v' :: _ from rfl)]
    change s.takeFlag .verbose = _
    rw [takeFlag, hs.settle_eq]
    rfl
  | letters n =>
    refine takeAll_cons_of_take ?_ args
    rw [bundle, List.replicate_succ, List.cons_append, take_letters hs.flags (by decide),
      ← List.cons_append, ← List.replicate_succ, takeShort_replicate_append hs]
    rfl
  | long option h =>
    refine (takeAll_detached hs (take_option hs.flags option) h args).trans ?_
    exact takeAll_valued hs h (hroom _ (by simp)) args
  | longEquals option h =>
    refine takeAll_cons_of_take ?_ args
    rw [take_optionEquals hs.flags, takeValued_attached hs,
      setValue_of_hasRoom h (hroom _ (by simp))]
    rfl
  | short n h =>
    have hn := hs.foldl_add (List.replicate n .verbose)
    refine (takeAll_detached hn (take_bundle_of_settled hs n []) h args).trans ?_
    rw [List.foldl_append]
    exact takeAll_valued hn h (hasRoom_foldl_verbose (hroom _ (by simp)) n) args
  | shortAttached n h =>
    have hn := hs.foldl_add (List.replicate n .verbose)
    refine takeAll_cons_of_take ?_ args
    rw [take_bundle_of_settled hs, takeShort_attached _ h, takeValued_attached hn,
      setValue_of_hasRoom h (hasRoom_foldl_verbose (hroom _ (by simp)) n), List.foldl_append]
    rfl
  | shortEquals n h =>
    have hn := hs.foldl_add (List.replicate n .verbose)
    refine takeAll_cons_of_take ?_ args
    rw [take_bundle_of_settled hs, takeShort_equals, takeValued_attached hn,
      setValue_of_hasRoom h (hasRoom_foldl_verbose (hroom _ (by simp)) n), List.foldl_append]
    rfl

/-- A line that gives nothing twice is read as its parts. -/
theorem takeAll_of_parts {parts : List Part} {args : List String} (h : Says parts args) {s : State}
    (hs : s.Settled) (hfits : s.Fits parts) : s.takeAll args = .ok (parts.foldl add s) := by
  induction h generalizing s with
  | nil => exact hs.settle_eq
  | @cons ps qs chunk args hspells hline ih =>
    have hps : s.Fits ps := fun kind => by
      have := hfits kind
      rw [givenIn_append] at this
      omega
    rw [takeAll_of_spells hspells hs ((fits_iff_of_spells hs hspells).mp hps), List.foldl_append]
    exact ih (hs.foldl_add ps) ((fits_append_iff hs hps qs).mp hfits)

/-! ### Lines that give something twice -/

def IsRepetition : Stop → Prop
  | .conflict | .unknownArgument => True
  | _ => False

def Repeats (r : Except Stop State) : Prop := ∃ stop, r = .error stop ∧ IsRepetition stop

theorem repeats_takeAll_cons {s : State} {a : String} (h : Repeats (s.take a)) (args : List String) :
    Repeats (s.takeAll (a :: args)) := by
  obtain ⟨stop, htake, hstop⟩ := h
  exact ⟨stop, by rw [takeAll, htake], hstop⟩

theorem repeats_of_pending {s : State} (hs : s.Settled) {option : Valued} {value : String}
    (h : (s.value option).isSome = true) {parts : List Part} {args : List String}
    (hline : Says parts args) : Repeats ((s.holding (.valued option value)).takeAll args) := by
  have hflags : (s.holding (.valued option value)).trailing = false := hs.flags
  have hsettle : (s.holding (.valued option value)).settle = .error .conflict :=
    (settle_valued hs option value).trans (setValue_of_isSome h value)
  generalize hu : s.holding (.valued option value) = u at hflags hsettle ⊢
  have hflag : ∀ flag, u.takeFlag flag = .error .conflict := fun flag => by rw [takeFlag, hsettle]
  have hvalued : ∀ o v, u.takeValued o v = .error .conflict := fun o v => by
    rw [takeValued, hsettle]
  have hletters : ∀ n rest,
      u.takeShort (List.replicate n 'v' ++ 'o' :: rest) = .error .conflict := by
    intro n rest
    cases n with
    | zero => exact hvalued .output _
    | succ n =>
      rw [List.replicate_succ, List.cons_append, takeShort]
      simp only [hflag]
  have hconflict : ∀ {a : String} {args : List String}, u.take a = .error .conflict →
      Repeats (u.takeAll (a :: args)) := fun ha => repeats_takeAll_cons ⟨.conflict, ha, trivial⟩ _
  cases hline with
  | nil => exact ⟨.conflict, hsettle, trivial⟩
  | cons hspells hline =>
    cases hspells with
    | input h =>
      apply repeats_takeAll_cons
      rw [take_word hflags (.inr h.head?_ne_dash), takeWord_eq, ← hu]
      change Repeats ((s.holding (.valued option value)).takeInput _)
      rw [hu, takeInput, hsettle]
      split
      · exact ⟨.unknownArgument, rfl, trivial⟩
      · exact ⟨.conflict, rfl, trivial⟩
    | pretty => exact hconflict ((take_pretty hflags).trans (hflag _))
    | verbose =>
      apply hconflict
      rw [take_long hflags (show "--verbose".toList = '-' :: '-' :: 'v' :: _ from rfl)]
      exact hflag .verbose
    | letters n =>
      apply hconflict
      rw [bundle, List.replicate_succ, List.cons_append, take_letters hflags (by decide), takeShort]
      simp only [hflag]
    | long option h =>
      exact hconflict ((take_option hflags option).trans (hvalued _ _))
    | longEquals option h =>
      exact hconflict ((take_optionEquals hflags option _).trans (hvalued _ _))
    | short n h =>
      exact hconflict ((take_bundle hflags n _).trans (hletters _ _))
    | shortAttached n h =>
      exact hconflict ((take_bundle hflags n _).trans (hletters _ _))
    | shortEquals n h =>
      exact hconflict ((take_bundle hflags n _).trans (hletters _ _))

theorem repeats_of_spells {ps : List Part} {chunk : List String} (h : Spells ps chunk) {s : State}
    (hs : s.Settled) {p : Part} (hp : p ∈ ps) (hroom : ¬ s.HasRoom p) {qs : List Part}
    {args : List String} (hline : Says qs args) : Repeats (s.takeAll (chunk ++ args)) := by
  have hstored : ∃ kind, p.kind? = some kind ∧ s.stored kind = true := by
    simpa [HasRoom] using hroom
  obtain ⟨kind, hkind, hstored⟩ := hstored
  have hloud : ∀ n, p ∉ List.replicate n Part.verbose := by
    intro n hmem
    rw [List.eq_of_mem_replicate hmem] at hkind
    cases hkind
  cases h with
  | input h =>
    obtain rfl := List.mem_singleton.mp hp
    cases hkind
    refine repeats_takeAll_cons ⟨.unknownArgument, ?_, trivial⟩ args
    rw [take_word hs.flags (.inr h.head?_ne_dash), takeWord_eq, hs.pending]
    exact if_pos hstored
  | pretty =>
    obtain rfl := List.mem_singleton.mp hp
    cases hkind
    refine repeats_takeAll_cons ⟨.conflict, ?_, trivial⟩ args
    rw [take_pretty hs.flags, takeFlag, hs.settle_eq]
    exact if_pos hstored
  | verbose => exact (hloud 1 hp).elim
  | letters n => exact (hloud (n + 1) hp).elim
  | long option h =>
    obtain rfl := List.mem_singleton.mp hp
    cases hkind
    rw [List.cons_append, List.cons_append, List.nil_append,
      takeAll_detached hs (take_option hs.flags option) h]
    exact repeats_of_pending hs hstored hline
  | longEquals option h =>
    obtain rfl := List.mem_singleton.mp hp
    cases hkind
    refine repeats_takeAll_cons ⟨.conflict, ?_, trivial⟩ args
    rw [take_optionEquals hs.flags, takeValued_attached hs, setValue_of_isSome hstored]
  | short n h =>
    obtain rfl := List.mem_singleton.mp ((List.mem_append.mp hp).resolve_left (hloud n))
    cases hkind
    have hn := hs.foldl_add (List.replicate n .verbose)
    rw [List.cons_append, List.cons_append, List.nil_append,
      takeAll_detached hn (take_bundle_of_settled hs n []) h]
    exact repeats_of_pending hn ((stored_foldl_verbose s n _).trans hstored) hline
  | shortAttached n h =>
    obtain rfl := List.mem_singleton.mp ((List.mem_append.mp hp).resolve_left (hloud n))
    cases hkind
    refine repeats_takeAll_cons ⟨.conflict, ?_, trivial⟩ args
    rw [take_bundle_of_settled hs, takeShort_attached _ h,
      takeValued_attached (hs.foldl_add _),
      setValue_of_isSome ((stored_foldl_verbose s n _).trans hstored)]
  | shortEquals n h =>
    obtain rfl := List.mem_singleton.mp ((List.mem_append.mp hp).resolve_left (hloud n))
    cases hkind
    refine repeats_takeAll_cons ⟨.conflict, ?_, trivial⟩ args
    rw [take_bundle_of_settled hs, takeShort_equals,
      takeValued_attached (hs.foldl_add _),
      setValue_of_isSome ((stored_foldl_verbose s n _).trans hstored)]

/-- A line that gives something twice is not read to its end. -/
theorem takeAll_of_repeated {parts : List Part} {args : List String} (h : Says parts args)
    {s : State} (hs : s.Settled) (hno : ¬ s.Fits parts) : Repeats (s.takeAll args) := by
  induction h generalizing s with
  | nil =>
    refine (hno fun kind => ?_).elim
    exact claimed_le_one hs.settle_eq kind
  | @cons ps qs chunk args hspells hline ih =>
    by_cases hroom : ∀ p ∈ ps, s.HasRoom p
    · have hps := (fits_iff_of_spells hs hspells).mpr hroom
      rw [takeAll_of_spells hspells hs hroom]
      exact ih (hs.foldl_add ps) fun hqs => hno ((fits_append_iff hs hps qs).mpr hqs)
    · push Not at hroom
      obtain ⟨p, hp, hfull⟩ := hroom
      exact repeats_of_spells hspells hs hp hfull hline

/-! ### The order of the parts -/

theorem add_add_comm (s : State) {p q : Part} (h : p = q ∨ p.kind? ≠ q.kind?) :
    (s.add p).add q = (s.add q).add p := by
  obtain rfl | h := h
  · rfl
  · cases p with
    | option o v =>
      cases q with
      | option o' v' => cases o <;> cases o' <;> simp_all [add, withValue, Part.kind?]
      | _ => cases o <;> rfl
    | _ =>
      cases q with
      | option o' v' => cases o' <;> rfl
      | _ => simp_all [add, Part.kind?]

theorem foldl_add_replicate_verbose (s : State) (hs : s.verbosity ≤ 255) (n : Nat) :
    (List.replicate n .verbose).foldl add s = { s with verbosity := min 255 (s.verbosity + n) } := by
  induction n generalizing s with
  | zero => simp [Nat.min_eq_right hs]
  | succ n ih =>
    rw [List.replicate_succ, List.foldl_cons, ih _ (Nat.min_le_left _ _)]
    simp only [add]
    congr 1
    omega

theorem foldl_add_parts (a : Arguments) :
    a.parts.foldl add {} =
      { input := some a.input, output := a.output, config := a.config, pretty := a.pretty
        verbosity := min 255 a.verbosity, hasInput := true } := by
  obtain ⟨input, output, pretty, config, verbosity⟩ := a
  simp only [Arguments.parts, List.foldl_cons, List.foldl_append]
  cases output <;> cases config <;> cases pretty <;>
    exact (foldl_add_replicate_verbose _ (Nat.zero_le _) verbosity).trans (by simp [add, withValue])

end State

theorem Arguments.kind_unique (a : Arguments) {p q : Part} (hp : p ∈ a.parts) (hq : q ∈ a.parts) :
    p = q ∨ p.kind? ≠ q.kind? := by
  obtain ⟨input, output, pretty, config, verbosity⟩ := a
  simp only [Arguments.parts, List.mem_cons, List.mem_append, List.mem_map, Option.mem_toList,
    List.mem_replicate] at hp hq
  obtain rfl | ((⟨v, hv, rfl⟩ | ⟨v, hv, rfl⟩) | ⟨-, rfl⟩) | ⟨-, rfl⟩ := hp <;>
    obtain rfl | ((⟨w, hw, rfl⟩ | ⟨w, hw, rfl⟩) | ⟨-, rfl⟩) | ⟨-, rfl⟩ := hq <;>
    simp_all [Part.kind?]

theorem Arguments.givenIn_parts_le_one (a : Arguments) (kind : Kind) : givenIn kind a.parts ≤ 1 := by
  obtain ⟨input, output, pretty, config, verbosity⟩ := a
  rw [Arguments.parts, givenIn_cons, givenIn_append, givenIn_replicate_verbose]
  cases kind with
  | input => cases output <;> cases config <;> cases pretty <;> simp [givenIn, Part.kind?]
  | option o =>
    cases o <;> cases output <;> cases config <;> cases pretty <;> simp [givenIn, Part.kind?]
  | pretty => cases output <;> cases config <;> cases pretty <;> simp [givenIn, Part.kind?]

open State

theorem finish_of_input {s : State} {input : String} (h : s.input = some input)
    {environment : Option String} (henv : environment ≠ some "") :
    s.finish environment = .ok ⟨input, s.output.or environment, s.pretty, s.config, s.verbosity⟩ := by
  unfold finish
  split
  · exact (henv rfl).elim
  · rw [h]

theorem claimed_initial (kind : Kind) : State.claimed {} kind = 0 := by
  cases kind with
  | option o => cases o <;> rfl
  | _ => rfl

/-- What arguments come to where the environment may name the output: there is no more to the
verbosity than 255. -/
def Arguments.within (a : Arguments) (environment : Option String) : Arguments :=
  { input := a.input
    output := a.output.or environment
    pretty := a.pretty
    config := a.config
    verbosity := min a.verbosity 255 }

theorem parse_of_parts {environment : Option String} (henv : environment ≠ some "") {a : Arguments}
    {parts : List Part} {args : List String} (hparts : parts.Perm a.parts) (h : Says parts args) :
    parse environment args = .ok (a.within environment) := by
  have hfits : State.Fits {} parts := by
    intro kind
    have hone := a.givenIn_parts_le_one kind
    rw [← givenIn_perm hparts] at hone
    rw [claimed_initial, Nat.zero_add]
    exact hone
  have hfold : parts.foldl add {} = a.parts.foldl add {} :=
    hparts.foldl_eq' (fun p hp q hq s =>
      add_add_comm s (a.kind_unique (hparts.mem_iff.mp hp) (hparts.mem_iff.mp hq))) {}
  rw [parse, takeAll_of_parts h ⟨rfl, rfl⟩ hfits, hfold, foldl_add_parts]
  simp only
  rw [finish_of_input rfl henv, Arguments.within, Nat.min_comm]

theorem parse_of_takeAll {args : List String} {stop : Stop} (h : takeAll {} args = .error stop)
    (environment : Option String) : parse environment args = .error stop := by
  rw [parse, h]

/-- Every spelling and order of a command line means the same settings, and a line that gives the
input, an option or `--pretty` twice means none. -/
theorem spellings_mean_same_settings (environment : Option String) (henv : environment ≠ some "") :
    (∀ (a : Arguments) (parts : List Part) (args : List String), parts.Perm a.parts →
      Says parts args → parse environment args = .ok (a.within environment) ∧
        ∀ config, (a.within environment).settings config =
          { input := a.input
            output := ((a.output.or environment).or config.output).getD "functions.json"
            pretty := a.pretty || config.pretty.getD false }) ∧
    (∀ (parts : List Part) (args : List String) (kind : Kind), Says parts args →
      2 ≤ givenIn kind parts →
        parse environment args = .error .conflict ∨
          parse environment args = .error .unknownArgument) ∧
    (∀ (kind : Kind) (before between after : List String) (a b : String), Gives kind before a →
      Gives kind (before ++ a :: between) b →
        ∃ stop, parse environment (before ++ a :: between ++ b :: after) = .error stop) := by
  refine ⟨fun a parts args hparts hline => ?_, fun parts args kind hline htwice => ?_,
    fun kind before between after a b ha hb => ?_⟩
  · exact ⟨parse_of_parts henv hparts hline, fun config => rfl⟩
  · have hno : ¬ State.Fits {} parts := fun hfits => by
      have hone := hfits kind
      omega
    obtain ⟨stop, hstop, hrepetition⟩ := takeAll_of_repeated hline ⟨rfl, rfl⟩ hno
    rw [parse_of_takeAll hstop]
    cases stop with
    | conflict => exact .inl rfl
    | unknownArgument => exact .inr rfl
    | _ => exact hrepetition.elim
  · cases htake : takeAll {} (before ++ a :: between ++ b :: after) with
    | error stop => exact ⟨stop, parse_of_takeAll htake environment⟩
    | ok s => exact (takeAll_ne_ok_of_gives ha hb s htake).elim

theorem spellings_mean_same_settings_bundled :
    parse (some "env.json") ["-vvo=out.json", "f.ts", "--config", "c.toml", "--verbose", "--pretty"] =
        .ok ⟨"f.ts", some "out.json", true, some "c.toml", 3⟩ ∧
      ∃ stop, parse (some "env.json") ["-oa", "f.ts", "-vo", "b"] = .error stop := by
  have hline : Says [.verbose, .verbose, .option .output "out.json", .input "f.ts",
        .option .config "c.toml", .verbose, .pretty]
      ["-vvo=out.json", "f.ts", "--config", "c.toml", "--verbose", "--pretty"] :=
    .cons (.shortEquals 2 ⟨'o', _, rfl, by decide, by decide⟩) <|
      .cons (.input ⟨'f', _, rfl, by decide, by decide⟩) <|
        .cons (.long .config ⟨'c', _, rfl, by decide, by decide⟩) <|
          .cons .verbose <| .cons .pretty .nil
  have h := spellings_mean_same_settings (some "env.json") (by decide)
  refine ⟨(h.1 ⟨"f.ts", some "out.json", true, some "c.toml", 3⟩ _ _ (by decide) hline).1, ?_⟩
  exact h.2.2 (.option .output) [] ["f.ts"] ["b"] "-oa" "-vo" (.option (by decide) (.short 0 ['a']))
    (.option (by decide) (.short 1 []))

end ScriptManifest.CommandLine
