import ScriptManifest.Proofs.ArgumentStates
import Mathlib.Logic.Relation

/-!
The flags of presentation in a command line: `--pretty` and those that ask for more messages. Where
a flag may stand is read off the text of the line (`IsFlagPosition`), and one that is put in or left
out changes what the line says about the presentation and nothing else (`parse_of_restyles`,
`parse_of_moreVerbose`).
-/

namespace ScriptManifest.CommandLine

/-! ### Changing the flags of a line -/

/-- A flag may stand behind these arguments: the flags have not ended, and no option waits for its
value. -/
structure IsFlagPosition (before : List String) : Prop where
  flags : "--" ∉ before
  complete : ∀ last, before.getLast? = some last → awaitsValue last = false

/-- A flag that only asks for more messages: `--verbose`, or a dash and any number of `v`. -/
def IsVerbose (flag : String) : Prop :=
  flag = "--verbose" ∨ ∃ n, flag = String.ofList ('-' :: List.replicate (n + 1) 'v')

/-- More messages are asked for, by a flag of its own or by a letter in front of others. -/
inductive MoreVerbose : List String → List String → Prop
  | flag {flag : String} {before after : List String} :
      IsVerbose flag → IsFlagPosition before → MoreVerbose (before ++ after) (before ++ flag :: after)
  | letter {c : Char} {letters : List Char} {before after : List String} :
      c ≠ '-' → "--" ∉ before →
      MoreVerbose (before ++ String.ofList ('-' :: c :: letters) :: after)
        (before ++ String.ofList ('-' :: 'v' :: c :: letters) :: after)

/-- The presentation that a line asks for is changed in one place. -/
inductive Restyles : List String → List String → Prop
  | addPretty {before after : List String} :
      IsFlagPosition before → "--pretty" ∉ flagsOf (before ++ after) →
      Restyles (before ++ after) (before ++ "--pretty" :: after)
  | removePretty {before after : List String} :
      "--" ∉ before → Restyles (before ++ "--pretty" :: after) (before ++ after)
  | verbose {args args' : List String} : MoreVerbose args args' → Restyles args args'

open State

theorem readAll_flagPosition {s : State} {before : List String}
    (h : readAll {} before = .ok s) (hpos : IsFlagPosition before) :
    s.trailing = false ∧ ∀ option, s.pending ≠ .bare option := by
  have htrailing := trailing_of_readAll h rfl hpos.flags
  refine ⟨htrailing, fun option hbare => ?_⟩
  obtain rfl | ⟨init, last, rfl⟩ := List.eq_nil_or_concat before
  · cases h
    cases hbare
  · rw [List.concat_eq_append] at h hpos
    obtain ⟨t, -, ht⟩ := readAll_concat h
    have hcomplete := hpos.complete last (by simp)
    obtain ⟨-, rfl, -⟩ | ⟨-, hawaits⟩ := take_cases ht
    · exact hpos.flags (by simp)
    · simp [hawaits option hbare] at hcomplete

/-! ### The flags of presentation -/

def Arguments.dressed (a : Arguments) (pretty : Bool) (verbosity : Nat) : Arguments :=
  { a with pretty := pretty, verbosity := verbosity }

theorem finish_dressed (s : State) (p : Bool) (n : Nat) (environment : Option String) :
    (s.dressed p n).finish environment = (s.finish environment).map (·.dressed p n) := by
  obtain ⟨input, output, config, pretty, verbosity, pending, hasInput, trailing⟩ := s
  simp only [finish, State.dressed]
  split
  · rfl
  · cases input <;> rfl

theorem pretty_of_finish {s : State} {environment : Option String} {a : Arguments}
    (h : s.finish environment = .ok a) : a.pretty = s.pretty := by
  have hm := finish_dressed s s.pretty s.verbosity environment
  rw [dressed_self, h] at hm
  have heq : a = a.dressed s.pretty s.verbosity := Except.ok.inj hm
  rw [heq]
  rfl

theorem parse_eq_ok {environment : Option String} {args : List String} {a : Arguments} :
    parse environment args = .ok a ↔
      ∃ s, takeAll {} args = .ok s ∧ s.finish environment = .ok a := by
  unfold parse
  cases takeAll {} args with
  | error e => simp
  | ok s => simp

theorem parse_dressed {environment : Option String} {args args' : List String} {a : Arguments}
    (ha : parse environment args = .ok a) (u : State) (after : List String)
    (h : takeAll {} args = u.takeAll after) {p : Bool}
    (h' : ∃ m, takeAll {} args' = (u.takeAll after).map (·.dressed p m)) :
    ∃ m, parse environment args' = .ok (a.dressed p m) := by
  obtain ⟨s, hs, hfinish⟩ := parse_eq_ok.mp ha
  obtain ⟨m, hm⟩ := h'
  refine ⟨m, parse_eq_ok.mpr ⟨s.dressed p m, ?_, ?_⟩⟩
  · rw [hm, ← h, hs]
    rfl
  · rw [finish_dressed, hfinish]
    rfl

theorem takeFlag_verbose {s s' : State} (h : s.settle = .ok s') :
    ∃ m, s.takeFlag .verbose = .ok (s'.dressed s'.pretty m) := by
  refine ⟨min 255 (s'.verbosity + 1), ?_⟩
  simp only [takeFlag, h]
  rfl

theorem takeShort_verbose {s s' : State} (h : s.settle = .ok s') (n : Nat) :
    ∃ m, s.takeShort (List.replicate (n + 1) 'v') = .ok (s'.dressed s'.pretty m) := by
  induction n generalizing s s' with
  | zero =>
    obtain ⟨m, hm⟩ := takeFlag_verbose h
    refine ⟨m, ?_⟩
    simp only [List.replicate, takeShort, hm]
  | succ n ih =>
    obtain ⟨m, hm⟩ := takeFlag_verbose h
    have hsettle : (s'.dressed s'.pretty m).settle = .ok (s'.dressed s'.pretty m) := by
      rw [settle_dressed, settle_settled h]
      rfl
    obtain ⟨m', hm'⟩ := ih hsettle
    refine ⟨m', ?_⟩
    rw [List.replicate_succ, takeShort]
    simp only [hm]
    exact hm'

theorem take_letters {s : State} (ht : s.trailing = false) {c : Char} (hc : c ≠ '-')
    (letters : List Char) :
    s.take (String.ofList ('-' :: c :: letters)) = s.takeShort (c :: letters) := by
  unfold take
  rw [if_neg (by simp [ht]), String.toList_ofList]
  split
  · next heq =>
    cases heq
    exact (hc rfl).elim
  · next heq =>
    cases heq
    exact (hc rfl).elim
  · next heq =>
    cases heq
    rfl
  · next hno => exact (hno c letters rfl).elim

theorem take_verbose {s s' : State} (h : s.settle = .ok s') (ht : s.trailing = false)
    {flag : String} (hflag : IsVerbose flag) :
    ∃ m, s.take flag = .ok (s'.dressed s'.pretty m) := by
  obtain rfl | ⟨n, rfl⟩ := hflag
  · obtain ⟨m, hm⟩ := takeFlag_verbose h
    refine ⟨m, Eq.trans ?_ hm⟩
    unfold take
    rw [if_neg (by simp [ht])]
    rfl
  · rw [List.replicate_succ, take_letters ht (by decide), ← List.replicate_succ]
    exact takeShort_verbose h n

/-- A request for more messages changes nothing else that a line says. -/
theorem parse_of_moreVerbose {environment : Option String} {args args' : List String}
    {a : Arguments} (h : MoreVerbose args args') (ha : parse environment args = .ok a) :
    ∃ n, parse environment args' = .ok (a.dressed a.pretty n) := by
  obtain ⟨s, hs, hfinish⟩ := parse_eq_ok.mp ha
  -- it is enough that the lines lead to one state, but for the messages asked for
  suffices ∃ (u : State) (after : List String) (m : Nat), takeAll {} args = u.takeAll after ∧
      takeAll {} args' = (u.dressed u.pretty m).takeAll after by
    obtain ⟨u, after, m, hu, hu'⟩ := this
    obtain ⟨n, hn⟩ := takeAll_louder u m after
    rw [pretty_of_finish hfinish]
    apply parse_dressed ha u after hu
    refine ⟨n, ?_⟩
    rw [hu', hn, ← hu, hs]
    rfl
  cases h with
  | @flag flag before after hflag hpos =>
    obtain ⟨t, hread, htake⟩ := readAll_of_takeAll hs
    have ⟨htrailing, hbare⟩ := readAll_flagPosition hread hpos
    obtain ⟨t0, ht0⟩ := settle_of_takeAll htake hbare
    obtain ⟨m, hm⟩ := take_verbose ht0 htrailing hflag
    refine ⟨t0, after, m, ?_, ?_⟩
    · rw [takeAll_append, hread]
      exact takeAll_of_settle ht0 after
    · rw [takeAll_append, hread]
      simp only [takeAll, hm]
  | @letter c letters before after hc hflags =>
    obtain ⟨t, hread, htake⟩ := readAll_of_takeAll hs
    have htrailing := trailing_of_readAll hread rfl hflags
    rw [takeAll, take_letters htrailing hc] at htake
    split at htake
    · cases htake
    · next t1 hshort =>
      obtain ⟨t0, ht0⟩ := settle_of_takeShort hshort
      obtain ⟨m, hm⟩ := takeFlag_verbose ht0
      obtain ⟨m', hm'⟩ := takeShort_dressed t0 t0.pretty m (c :: letters)
      rw [← takeShort_of_settle ht0, hshort] at hm'
      have hpretty : t1.pretty = t0.pretty :=
        (pretty_of_takeShort hshort).trans (pretty_of_settle ht0).symm
      refine ⟨t1, after, m', ?_, ?_⟩
      · rw [takeAll_append, hread]
        simp only [takeAll, take_letters htrailing hc, hshort]
      · rw [takeAll_append, hread, hpretty]
        simp only [takeAll, take_letters htrailing (show 'v' ≠ '-' by decide)]
        rw [takeShort]
        simp only [hm, hm']
        rfl

theorem not_mem_flagsOf_of_pretty {s s' : State} {args : List String}
    (h : s.takeAll args = .ok s') (hp : s.pretty = true) (ht : s.trailing = false) :
    "--pretty" ∉ flagsOf args := by
  induction args generalizing s with
  | nil => simp [flagsOf]
  | cons a as ih =>
    rw [takeAll] at h
    split at h
    · cases h
    · next t htake =>
      have hne : a ≠ "--pretty" := by
        rintro rfl
        rw [take_pretty ht, takeFlag] at htake
        split at htake
        · cases htake
        · next s0 hs0 => simp [pretty_of_settle hs0, hp] at htake
      obtain ⟨-, rfl, -⟩ | ⟨htrailing, -⟩ := take_cases htake
      · simp [flagsOf]
      · have hrest := ih h ((pretty_of_take (fun _ => hne) htake).trans hp) (htrailing.trans ht)
        intro hmem
        simp only [flagsOf, List.takeWhile_cons] at hmem hrest
        split at hmem
        · obtain heq | hmem := List.mem_cons.mp hmem
          · exact hne heq.symm
          · exact hrest hmem
        · cases hmem

theorem flagsOf_append {before : List String} (h : "--" ∉ before) (after : List String) :
    flagsOf (before ++ after) = before ++ flagsOf after := by
  apply List.takeWhile_append_of_pos
  intro a ha
  have hne : a ≠ "--" := by
    rintro rfl
    exact h ha
  simpa using hne

/-- A change of presentation changes nothing else that a line says. -/
theorem parse_of_restyles {environment : Option String} {args args' : List String}
    {a : Arguments} (h : Restyles args args') (ha : parse environment args = .ok a) :
    ∃ p n, parse environment args' = .ok (a.dressed p n) := by
  obtain ⟨s, hs, hfinish⟩ := parse_eq_ok.mp ha
  cases h with
  | @addPretty before after hpos hpretty =>
    rw [flagsOf_append hpos.flags, List.mem_append, not_or] at hpretty
    obtain ⟨t, hread, htake⟩ := readAll_of_takeAll hs
    have ⟨htrailing, hbare⟩ := readAll_flagPosition hread hpos
    obtain ⟨t0, ht0⟩ := settle_of_takeAll htake hbare
    have hplain : t0.pretty = false :=
      (pretty_of_settle ht0).trans (pretty_of_readAll hread hpretty.1)
    refine ⟨true, parse_dressed ha t0 after ?_ ?_⟩
    · rw [takeAll_append, hread]
      exact takeAll_of_settle ht0 after
    · rw [takeAll_append, hread]
      simp only [takeAll, take_pretty htrailing, takeFlag, ht0, hplain]
      exact takeAll_dressed t0 true t0.verbosity fun _ => hpretty.2
  | @removePretty before after hflags =>
    obtain ⟨t, hread, htake⟩ := readAll_of_takeAll hs
    have htrailing := trailing_of_readAll hread rfl hflags
    rw [takeAll, take_pretty htrailing, takeFlag] at htake
    cases ht0 : t.settle with
    | error e => simp [ht0] at htake
    | ok t0 =>
      cases hplain : t0.pretty with
      | true => simp [ht0, hplain] at htake
      | false =>
        simp only [ht0, hplain, Bool.false_eq_true, if_false] at htake
        have hv : (t0.dressed true t0.verbosity).takeAll after = .ok s := htake
        have hback : (t0.dressed true t0.verbosity).dressed false t0.verbosity = t0 := by
          rw [dressed_dressed, ← hplain, dressed_self]
        refine ⟨false, parse_dressed ha (t0.dressed true t0.verbosity) after ?_ ?_⟩
        · rw [takeAll_append, hread]
          simp only [takeAll, take_pretty htrailing, takeFlag, ht0, hplain]
          rfl
        · have hone : "--pretty" ∉ flagsOf after :=
            not_mem_flagsOf_of_pretty hv rfl ((settle_cases ht0).2.1.trans htrailing)
          have h := takeAll_dressed (t0.dressed true t0.verbosity) false t0.verbosity fun _ => hone
          rw [hback, ← takeAll_of_settle ht0] at h
          rw [takeAll_append, hread]
          exact h
  | verbose hmore =>
    obtain ⟨n, hn⟩ := parse_of_moreVerbose hmore ha
    exact ⟨a.pretty, n, hn⟩

end ScriptManifest.CommandLine
