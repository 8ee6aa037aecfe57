import ScriptManifest.CommandLine

/-!
The states of reading a command line. Taking an argument does the same to two states that differ in
how the result is shown (`take_dressed`, `takeAll_dressed`), leaves an option without its value only
if it awaits one (`take_cases`), and looks at what is pending first, so that it may be looked at early
(`takeAll_of_settle`).
-/

namespace ScriptManifest.CommandLine

/-- Whether the argument behind this one is its value: a long option without a value of its own, or
letters that end in the `o` of the output. -/
def awaitsValue (argument : String) : Bool :=
  match argument.toList with
  | '-' :: '-' :: name => name == "output".toList || name == "config".toList
  | '-' :: letters => letters.dropWhile (· == 'v') == ['o']
  | _ => false

/-- The arguments in front of the end of the flags. -/
def flagsOf (args : List String) : List String := args.takeWhile (· != "--")

namespace State

/-! ### Two states that are shown differently -/

def dressed (s : State) (pretty : Bool) (verbosity : Nat) : State :=
  { s with pretty := pretty, verbosity := verbosity }

@[simp] theorem dressed_self (s : State) : s.dressed s.pretty s.verbosity = s := rfl

@[simp] theorem dressed_dressed (s : State) (p q : Bool) (m n : Nat) :
    (s.dressed p m).dressed q n = s.dressed q n := rfl

@[simp] theorem trailing_dressed (s : State) (p : Bool) (n : Nat) :
    (s.dressed p n).trailing = s.trailing := rfl

@[simp] theorem hasInput_dressed (s : State) (p : Bool) (n : Nat) :
    (s.dressed p n).hasInput = s.hasInput := rfl

@[simp] theorem pending_dressed (s : State) (p : Bool) (n : Nat) :
    (s.dressed p n).pending = s.pending := rfl

theorem setValue_dressed (s : State) (p : Bool) (n : Nat) (option : Valued) (value : String) :
    (s.dressed p n).setValue option value = (s.setValue option value).map (·.dressed p n) := by
  cases option with
  | output =>
    change (if s.output.isSome then _ else _) = Except.map _ (if s.output.isSome then _ else _)
    by_cases hset : s.output.isSome = true
    · rw [if_pos hset, if_pos hset]
      rfl
    · rw [if_neg hset, if_neg hset]
      split <;> rfl
  | config =>
    change (if s.config.isSome then _ else _) = Except.map _ (if s.config.isSome then _ else _)
    by_cases hset : s.config.isSome = true
    · rw [if_pos hset, if_pos hset]
      rfl
    · rw [if_neg hset, if_neg hset]
      split <;> rfl

theorem settle_dressed (s : State) (p : Bool) (n : Nat) :
    (s.dressed p n).settle = s.settle.map (·.dressed p n) := by
  unfold settle
  rw [pending_dressed]
  cases s.pending with
  | nothing => rfl
  | input value =>
    dsimp only
    split <;> rfl
  | bare option => rfl
  | valued option value => exact setValue_dressed { s with pending := .nothing } p n option value

theorem takeValued_dressed (s : State) (p : Bool) (n : Nat) (option : Valued)
    (attached : Option String) :
    (s.dressed p n).takeValued option attached =
      (s.takeValued option attached).map (·.dressed p n) := by
  unfold takeValued
  rw [settle_dressed]
  cases s.settle with
  | error e => rfl
  | ok s' =>
    cases attached with
    | none => rfl
    | some value => exact setValue_dressed s' p n option value

def takeInput (s : State) (word : String) : Except Stop State :=
  if s.hasInput then .error .unknownArgument
  else match s.settle with
    | .error e => .error e
    | .ok s' => .ok { s' with pending := .input word, hasInput := true }

theorem takeWord_eq (s : State) (word : String) :
    s.takeWord word =
      match s.pending with
      | .bare option =>
        if s.trailing then s.takeInput word else .ok { s with pending := .valued option word }
      | _ => s.takeInput word :=
  rfl

theorem takeInput_dressed (s : State) (p : Bool) (n : Nat) (word : String) :
    (s.dressed p n).takeInput word = (s.takeInput word).map (·.dressed p n) := by
  unfold takeInput
  rw [settle_dressed, hasInput_dressed]
  by_cases hinput : s.hasInput = true
  · rw [if_pos hinput, if_pos hinput]
    rfl
  · rw [if_neg hinput, if_neg hinput]
    cases s.settle <;> rfl

theorem takeWord_dressed (s : State) (p : Bool) (n : Nat) (word : String) :
    (s.dressed p n).takeWord word = (s.takeWord word).map (·.dressed p n) := by
  rw [takeWord_eq, takeWord_eq, pending_dressed, takeInput_dressed, trailing_dressed]
  cases s.pending with
  | bare option =>
    dsimp only
    split <;> rfl
  | nothing => rfl
  | input value => rfl
  | valued option value => rfl

theorem takeFlag_dressed (s : State) (p : Bool) (n : Nat) (flag : Flag) (h : flag ≠ .pretty) :
    ∃ m, (s.dressed p n).takeFlag flag = (s.takeFlag flag).map (·.dressed p m) := by
  unfold takeFlag
  rw [settle_dressed]
  cases s.settle with
  | error e => exact ⟨n, rfl⟩
  | ok s' =>
    cases flag with
    | pretty => exact (h rfl).elim
    | verbose => exact ⟨min 255 (n + 1), rfl⟩
    | help => exact ⟨n, rfl⟩
    | version => exact ⟨n, rfl⟩

theorem takeLong_dressed (s : State) (p : Bool) (n : Nat) {body : List Char}
    (h : body ≠ "pretty".toList) :
    ∃ m, (s.dressed p n).takeLong body = (s.takeLong body).map (·.dressed p m) := by
  have hsplit := List.takeWhile_append_dropWhile (p := (· != '=')) (l := body)
  unfold takeLong
  cases hdrop : body.dropWhile (· != '=') with
  | nil =>
    rw [hdrop, List.append_nil] at hsplit
    dsimp only [Option.isSome_none]
    split
    · exact ⟨n, takeValued_dressed s p n .output none⟩
    · exact ⟨n, takeValued_dressed s p n .config none⟩
    · next hname =>
      -- without a value the argument would be the flag itself
      apply (h _).elim
      rw [← hsplit, ← hname, String.toList_ofList]
    · exact takeFlag_dressed s p n .verbose (by decide)
    · exact takeFlag_dressed s p n .help (by decide)
    · exact takeFlag_dressed s p n .version (by decide)
    · exact ⟨n, rfl⟩
  | cons c value =>
    dsimp only [Option.isSome_some]
    split
    · exact ⟨n, takeValued_dressed s p n .output _⟩
    · exact ⟨n, takeValued_dressed s p n .config _⟩
    all_goals exact ⟨n, rfl⟩

theorem takeShort_dressed (s : State) (p : Bool) (n : Nat) (letters : List Char) :
    ∃ m, (s.dressed p n).takeShort letters = (s.takeShort letters).map (·.dressed p m) := by
  induction letters generalizing s n with
  | nil => exact ⟨n, rfl⟩
  | cons c cs ih =>
    have hnext : ∀ flag, flag ≠ .pretty → ∃ m,
        (match (s.dressed p n).takeFlag flag with
          | .error e => .error e
          | .ok s' => s'.takeShort cs) =
        (match s.takeFlag flag with
          | .error e => .error e
          | .ok s' => s'.takeShort cs : Except Stop State).map (·.dressed p m) := by
      intro flag hflag
      obtain ⟨m, hm⟩ := takeFlag_dressed s p n flag hflag
      rw [hm]
      cases s.takeFlag flag with
      | error e => exact ⟨m, rfl⟩
      | ok s' => exact ih s' m
    unfold takeShort
    dsimp only
    split
    · exact ⟨n, takeValued_dressed s p n .output _⟩
    · exact hnext .verbose (by decide)
    · exact hnext .help (by decide)
    · exact hnext .version (by decide)
    · exact ⟨n, rfl⟩

/-- An argument other than `--pretty` does the same to two states that are shown differently. -/
theorem take_dressed (s : State) (p : Bool) (n : Nat) {argument : String}
    (h : s.trailing = false → argument ≠ "--pretty") :
    ∃ m, (s.dressed p n).take argument = (s.take argument).map (·.dressed p m) := by
  unfold take
  rw [trailing_dressed]
  split
  · exact ⟨n, takeWord_dressed s p n argument⟩
  · next htrailing =>
    split
    · exact ⟨n, rfl⟩
    · next body hbody heq =>
      apply takeLong_dressed
      intro hpretty
      apply h (by simpa using htrailing)
      rw [← String.toList_inj, heq, hpretty]
      decide
    · exact takeShort_dressed s p n _
    · exact ⟨n, takeWord_dressed s p n argument⟩

theorem pretty_of_eq_dressed {s : State} {p : Bool} {n : Nat}
    (h : (.ok s : Except Stop State) = (Except.ok s).map (·.dressed p n)) : s.pretty = p := by
  have heq : s = s.dressed p n := Except.ok.inj h
  rw [heq]
  rfl

theorem pretty_of_take {s s' : State} {argument : String}
    (h : s.trailing = false → argument ≠ "--pretty") (htake : s.take argument = .ok s') :
    s'.pretty = s.pretty := by
  obtain ⟨m, hm⟩ := take_dressed s s.pretty s.verbosity h
  rw [dressed_self, htake] at hm
  exact pretty_of_eq_dressed hm

theorem pretty_of_takeShort {s s' : State} {letters : List Char}
    (h : s.takeShort letters = .ok s') : s'.pretty = s.pretty := by
  obtain ⟨m, hm⟩ := takeShort_dressed s s.pretty s.verbosity letters
  rw [dressed_self, h] at hm
  exact pretty_of_eq_dressed hm

theorem pretty_of_settle {s s' : State} (h : s.settle = .ok s') : s'.pretty = s.pretty := by
  have hm := settle_dressed s s.pretty s.verbosity
  rw [dressed_self, h] at hm
  exact pretty_of_eq_dressed hm

theorem take_pretty {s : State} (h : s.trailing = false) : s.take "--pretty" = s.takeFlag .pretty := by
  unfold take
  rw [if_neg (by simp [h])]
  rfl

theorem take_louder (s : State) (n : Nat) (argument : String) :
    ∃ m, (s.dressed s.pretty n).take argument =
      (s.take argument).map fun s' => s'.dressed s'.pretty m := by
  by_cases h : s.trailing = false ∧ argument = "--pretty"
  · obtain ⟨htrailing, rfl⟩ := h
    refine ⟨n, ?_⟩
    rw [take_pretty htrailing, take_pretty (by exact htrailing), takeFlag, takeFlag, settle_dressed]
    cases hs : s.settle with
    | error e => rfl
    | ok s' =>
      change (if s.pretty then _ else _) = Except.map _ (if s'.pretty then _ else _)
      rw [pretty_of_settle hs]
      split <;> rfl
  · have hne : s.trailing = false → argument ≠ "--pretty" := fun ht ha => h ⟨ht, ha⟩
    obtain ⟨m, hm⟩ := take_dressed s s.pretty n hne
    refine ⟨m, hm.trans ?_⟩
    cases htake : s.take argument with
    | error e => rfl
    | ok s' => rw [Except.map, Except.map, pretty_of_take hne htake]

theorem takeAll_louder (s : State) (n : Nat) (args : List String) :
    ∃ m, (s.dressed s.pretty n).takeAll args =
      (s.takeAll args).map fun s' => s'.dressed s'.pretty m := by
  induction args generalizing s n with
  | nil =>
    refine ⟨n, ?_⟩
    rw [takeAll, takeAll, settle_dressed]
    cases hs : s.settle with
    | error e => rfl
    | ok s' => rw [Except.map, Except.map, pretty_of_settle hs]
  | cons a as ih =>
    obtain ⟨m, hm⟩ := take_louder s n a
    rw [takeAll, takeAll, hm]
    cases s.take a with
    | error e => exact ⟨m, rfl⟩
    | ok s' => exact ih s' m

theorem take_end {s : State} (h : s.trailing = false) : s.take "--" = .ok { s with trailing := true } := by
  unfold take
  rw [if_neg (by simp [h])]
  rfl

/-! ### What an argument leaves pending -/

theorem setValue_cases {s s' : State} {option : Valued} {value : String}
    (h : s.setValue option value = .ok s') :
    s'.pending = s.pending ∧ s'.trailing = s.trailing ∧ s'.hasInput = s.hasInput := by
  unfold setValue at h
  cases option with
  | output =>
    dsimp only at h
    split at h
    · cases h
    · split at h <;> cases h
      exact ⟨rfl, rfl, rfl⟩
  | config =>
    dsimp only at h
    split at h
    · cases h
    · split at h <;> cases h
      exact ⟨rfl, rfl, rfl⟩

theorem settle_cases {s s' : State} (h : s.settle = .ok s') :
    s'.pending = .nothing ∧ s'.trailing = s.trailing ∧ s'.hasInput = s.hasInput := by
  unfold settle at h
  dsimp only at h
  split at h
  · cases h
    exact ⟨rfl, rfl, rfl⟩
  · split at h <;> cases h
    exact ⟨rfl, rfl, rfl⟩
  · cases h
  · exact setValue_cases h

theorem takeFlag_cases {s s' : State} {flag : Flag} (h : s.takeFlag flag = .ok s') :
    s'.pending = .nothing ∧ s'.trailing = s.trailing := by
  unfold takeFlag at h
  split at h
  · cases h
  · next s0 hs =>
    have ⟨hpending, htrailing, _⟩ := settle_cases hs
    cases flag with
    | help => cases h
    | version => cases h
    | verbose =>
      cases h
      exact ⟨hpending, htrailing⟩
    | pretty =>
      dsimp only at h
      split at h <;> cases h
      exact ⟨hpending, htrailing⟩

theorem takeValued_cases {s s' : State} {option : Valued} {attached : Option String}
    (h : s.takeValued option attached = .ok s') :
    (attached = none ∨ s'.pending = .nothing) ∧ s'.trailing = s.trailing := by
  unfold takeValued at h
  split at h
  · cases h
  · next s0 hs =>
    have ⟨hpending, htrailing, _⟩ := settle_cases hs
    cases attached with
    | none =>
      cases h
      exact ⟨.inl rfl, htrailing⟩
    | some value =>
      have ⟨hpending', htrailing', _⟩ := setValue_cases h
      exact ⟨.inr (hpending'.trans hpending), htrailing'.trans htrailing⟩

theorem takeWord_cases {s s' : State} {word : String} (h : s.takeWord word = .ok s') :
    (∀ option, s'.pending ≠ .bare option) ∧ s'.trailing = s.trailing := by
  have hinput : ∀ {t}, s.takeInput word = .ok t →
      (∀ option, t.pending ≠ .bare option) ∧ t.trailing = s.trailing := by
    intro t ht
    unfold takeInput at ht
    split at ht
    · cases ht
    · split at ht
      · cases ht
      · next s0 hs =>
        cases ht
        exact ⟨fun _ => by simp, (settle_cases hs).2.1⟩
  rw [takeWord_eq] at h
  split at h
  · split at h
    · exact hinput h
    · cases h
      exact ⟨fun _ => by simp, rfl⟩
  · exact hinput h

theorem takeLong_cases {s s' : State} {body : List Char} (h : s.takeLong body = .ok s') :
    (s'.pending = .nothing ∨ body = "output".toList ∨ body = "config".toList) ∧
      s'.trailing = s.trailing := by
  have hsplit := List.takeWhile_append_dropWhile (p := (· != '=')) (l := body)
  have hflag : ∀ {attached : Option String} {flag : Flag},
      (if attached.isSome then .error .tooManyValues else s.takeFlag flag) = .ok s' →
      (s'.pending = .nothing ∨ body = "output".toList ∨ body = "config".toList) ∧
        s'.trailing = s.trailing := by
    intro attached flag ht
    split at ht
    · cases ht
    · exact ⟨.inl (takeFlag_cases ht).1, (takeFlag_cases ht).2⟩
  have hname : body.dropWhile (· != '=') = [] → ∀ {name : String},
      String.ofList (body.takeWhile (· != '=')) = name → body = name.toList := by
    intro hdrop name hn
    rw [hdrop, List.append_nil] at hsplit
    rw [← hn, String.toList_ofList, hsplit]
  unfold takeLong at h
  dsimp only at h
  split at h
  · next hn =>
    obtain ⟨hnone | hpending, ht⟩ := takeValued_cases h
    · split at hnone
      · next hdrop => exact ⟨.inr (.inl (hname hdrop hn)), ht⟩
      · cases hnone
    · exact ⟨.inl hpending, ht⟩
  · next hn =>
    obtain ⟨hnone | hpending, ht⟩ := takeValued_cases h
    · split at hnone
      · next hdrop => exact ⟨.inr (.inr (hname hdrop hn)), ht⟩
      · cases hnone
    · exact ⟨.inl hpending, ht⟩
  · exact hflag h
  · exact hflag h
  · exact hflag h
  · exact hflag h
  · cases h

theorem takeFlag_help_ne_ok (s s' : State) : s.takeFlag .help ≠ .ok s' := by
  unfold takeFlag
  split <;> simp

theorem takeFlag_version_ne_ok (s s' : State) : s.takeFlag .version ≠ .ok s' := by
  unfold takeFlag
  split <;> simp

theorem takeShort_cases {s s' : State} {letters : List Char} (h : s.takeShort letters = .ok s') :
    (letters = [] ∧ s' = s) ∨
      ((s'.pending = .nothing ∨ letters.dropWhile (· == 'v') = ['o']) ∧ s'.trailing = s.trailing) := by
  induction letters generalizing s with
  | nil =>
    cases h
    exact .inl ⟨rfl, rfl⟩
  | cons c cs ih =>
    right
    unfold takeShort at h
    dsimp only at h
    split at h
    · obtain ⟨hnone | hpending, ht⟩ := takeValued_cases h
      · split at hnone
        · exact ⟨.inr rfl, ht⟩
        · cases hnone
        · cases hnone
      · exact ⟨.inl hpending, ht⟩
    · split at h
      · cases h
      · next s1 hflag =>
        have ⟨hpending, htrailing⟩ := takeFlag_cases hflag
        obtain ⟨-, rfl⟩ | ⟨hrest, ht⟩ := ih h
        · exact ⟨.inl hpending, htrailing⟩
        · exact ⟨hrest.imp_right fun ho => by simpa using ho, ht.trans htrailing⟩
    · split at h
      · cases h
      · next s1 hflag => exact (takeFlag_help_ne_ok s s1 hflag).elim
    · split at h
      · cases h
      · next s1 hflag => exact (takeFlag_version_ne_ok s s1 hflag).elim
    · cases h

/-- An argument ends the flags, or it leaves an option without a value only if it awaits one. -/
theorem take_cases {s s' : State} {argument : String} (h : s.take argument = .ok s') :
    (s.trailing = false ∧ argument = "--" ∧ s' = { s with trailing := true }) ∨
      (s'.trailing = s.trailing ∧
        ∀ option, s'.pending = .bare option → awaitsValue argument = true) := by
  unfold take at h
  split at h
  · have ⟨hpending, htrailing⟩ := takeWord_cases h
    exact .inr ⟨htrailing, fun option hbare => (hpending option hbare).elim⟩
  · next hflags =>
    split at h
    · next hdashes =>
      cases h
      refine .inl ⟨by simpa using hflags, ?_, rfl⟩
      rw [← String.toList_inj, hdashes]
      decide
    · next body hbody hdashes =>
      obtain ⟨hpending, htrailing⟩ := takeLong_cases h
      refine .inr ⟨htrailing, fun option hbare => ?_⟩
      simp only [hbare, reduceCtorEq, false_or] at hpending
      simpa [awaitsValue, hdashes] using hpending
    · next c cs hdash hletters =>
      obtain ⟨hnil, -⟩ | ⟨hpending, htrailing⟩ := takeShort_cases h
      · cases hnil
      · refine .inr ⟨htrailing, fun option hbare => ?_⟩
        simp only [hbare, reduceCtorEq, false_or] at hpending
        unfold awaitsValue
        rw [hletters]
        split
        · next name heq =>
          cases heq
          simp at hpending
        · next letters hdash' heq =>
          cases heq
          simpa using hpending
        · next hno => exact (hno _ rfl).elim
    · have ⟨hpending, htrailing⟩ := takeWord_cases h
      exact .inr ⟨htrailing, fun option hbare => (hpending option hbare).elim⟩

theorem takeAll_dressed (s : State) (p : Bool) (n : Nat) {args : List String}
    (h : s.trailing = false → "--pretty" ∉ flagsOf args) :
    ∃ m, (s.dressed p n).takeAll args = (s.takeAll args).map (·.dressed p m) := by
  induction args generalizing s n with
  | nil => exact ⟨n, settle_dressed s p n⟩
  | cons a as ih =>
    have hne : s.trailing = false → a ≠ "--pretty" := by
      rintro ht rfl
      exact h ht (by simp [flagsOf])
    obtain ⟨m, hm⟩ := take_dressed s p n hne
    rw [takeAll, takeAll, hm]
    cases htake : s.take a with
    | error e => exact ⟨m, rfl⟩
    | ok s' =>
      apply ih s' m
      intro ht'
      obtain ⟨-, -, rfl⟩ | ⟨ht, -⟩ := take_cases htake
      · cases ht'
      · rw [ht] at ht'
        have hrest := h ht'
        have hend : a ≠ "--" := by
          rintro rfl
          rw [take_end ht'] at htake
          cases htake
          cases ht.trans ht'
        simpa [flagsOf, hend, (hne ht').symm] using hrest

/-! ### Looking at what is pending early -/

theorem settle_settled {s s' : State} (h : s.settle = .ok s') : s'.settle = .ok s' := by
  have ⟨hpending, _, _⟩ := settle_cases h
  cases s'
  cases hpending
  rfl

theorem takeFlag_of_settle {s s' : State} (h : s.settle = .ok s') (flag : Flag) :
    s.takeFlag flag = s'.takeFlag flag := by
  simp only [takeFlag, h, settle_settled h]

theorem takeValued_of_settle {s s' : State} (h : s.settle = .ok s') (option : Valued)
    (attached : Option String) : s.takeValued option attached = s'.takeValued option attached := by
  simp only [takeValued, h, settle_settled h]

theorem takeShort_of_settle {s s' : State} (h : s.settle = .ok s') (c : Char) (cs : List Char) :
    s.takeShort (c :: cs) = s'.takeShort (c :: cs) := by
  simp only [takeShort, takeFlag_of_settle h, takeValued_of_settle h]

theorem takeWord_of_settle {s s' : State} (h : s.settle = .ok s') (word : String) :
    s.takeWord word = s'.takeWord word := by
  have ⟨hpending, _, hinput⟩ := settle_cases h
  have heq : s.takeInput word = s'.takeInput word := by
    simp only [takeInput, h, settle_settled h, hinput]
  rw [takeWord_eq, takeWord_eq, hpending, heq]
  cases hs : s.pending with
  | bare option => simp [settle, hs] at h
  | nothing => rfl
  | input value => rfl
  | valued option value => rfl

theorem setValue_trailing (s : State) (option : Valued) (value : String) :
    { s with trailing := true }.setValue option value =
      (s.setValue option value).map ({ · with trailing := true }) := by
  cases option with
  | output =>
    simp only [setValue]
    split
    · rfl
    · split <;> rfl
  | config =>
    simp only [setValue]
    split
    · rfl
    · split <;> rfl

theorem settle_trailing (s : State) :
    { s with trailing := true }.settle = s.settle.map ({ · with trailing := true }) := by
  unfold settle
  cases hs : s.pending with
  | nothing => rfl
  | input value =>
    dsimp only
    split <;> rfl
  | bare option => rfl
  | valued option value => exact setValue_trailing { s with pending := .nothing } option value

theorem take_of_settle {s s' : State} (h : s.settle = .ok s') {argument : String}
    (ha : s.trailing = false → argument ≠ "--") : s.take argument = s'.take argument := by
  have ⟨_, htrailing, _⟩ := settle_cases h
  unfold take
  rw [htrailing, takeWord_of_settle h]
  split
  · rfl
  · next hflags =>
    split
    · next hdashes =>
      apply (ha (by simpa using hflags) _).elim
      rw [← String.toList_inj, hdashes]
      decide
    · simp only [takeLong, takeFlag_of_settle h, takeValued_of_settle h]
    · exact takeShort_of_settle h _ _
    · rfl

theorem takeAll_of_settle {s s' : State} (h : s.settle = .ok s') (args : List String) :
    s.takeAll args = s'.takeAll args := by
  induction args generalizing s s' with
  | nil => exact h.trans (settle_settled h).symm
  | cons a as ih =>
    by_cases ha : s.trailing = false ∧ a = "--"
    · obtain ⟨ht, rfl⟩ := ha
      have ht' : s'.trailing = false := (settle_cases h).2.1.trans ht
      rw [takeAll, takeAll, take_end ht, take_end ht']
      apply ih
      rw [settle_trailing, h]
      rfl
    · rw [takeAll, takeAll, take_of_settle h fun ht hend => ha ⟨ht, hend⟩]

theorem settle_of_takeShort {s s' : State} {c : Char} {cs : List Char}
    (h : s.takeShort (c :: cs) = .ok s') : ∃ s0, s.settle = .ok s0 := by
  cases hs : s.settle with
  | ok s0 => exact ⟨s0, rfl⟩
  | error e =>
    simp only [takeShort, takeFlag, takeValued, hs] at h
    split at h <;> cases h

theorem settle_of_take {s s' : State} {argument : String} (h : s.take argument = .ok s')
    (ha : s.trailing = false → argument ≠ "--") (hbare : ∀ option, s.pending ≠ .bare option) :
    ∃ s0, s.settle = .ok s0 := by
  cases hs : s.settle with
  | ok s0 => exact ⟨s0, rfl⟩
  | error e =>
    have hword : ∀ t, s.takeWord argument ≠ .ok t := by
      intro t ht
      rw [takeWord_eq] at ht
      split at ht
      · next option hp => exact hbare option hp
      · unfold takeInput at ht
        rw [hs] at ht
        split at ht <;> cases ht
    unfold take at h
    split at h
    · exact (hword s' h).elim
    · next hflags =>
      split at h
      · next hdashes =>
        apply (ha (by simpa using hflags) _).elim
        rw [← String.toList_inj, hdashes]
        decide
      · simp only [takeLong, takeFlag, takeValued, hs] at h
        split at h
        · cases h
        · cases h
        · split at h <;> cases h
        · split at h <;> cases h
        · split at h <;> cases h
        · split at h <;> cases h
        · cases h
      · obtain ⟨s0, h0⟩ := settle_of_takeShort h
        simp [hs] at h0
      · exact (hword s' h).elim

theorem settle_of_takeAll {s s' : State} {args : List String} (h : s.takeAll args = .ok s')
    (hbare : ∀ option, s.pending ≠ .bare option) : ∃ s0, s.settle = .ok s0 := by
  induction args generalizing s with
  | nil => exact ⟨s', h⟩
  | cons a as ih =>
    rw [takeAll] at h
    split at h
    · cases h
    · next s1 htake =>
      by_cases ha : s.trailing = false ∧ a = "--"
      · obtain ⟨ht, rfl⟩ := ha
        rw [take_end ht] at htake
        cases htake
        obtain ⟨s0, h0⟩ := ih h hbare
        rw [settle_trailing] at h0
        cases hs : s.settle with
        | error e => simp [hs, Except.map] at h0
        | ok t => exact ⟨t, rfl⟩
      · exact settle_of_take htake (fun ht hend => ha ⟨ht, hend⟩) hbare

/-! ### The state in front of a flag -/

def readAll (s : State) : List String → Except Stop State
  | [] => .ok s
  | a :: as =>
    match s.take a with
    | .error e => .error e
    | .ok s' => s'.readAll as

theorem takeAll_append (s : State) (before after : List String) :
    s.takeAll (before ++ after) =
      match s.readAll before with
      | .error e => .error e
      | .ok s' => s'.takeAll after := by
  induction before generalizing s with
  | nil => rfl
  | cons a as ih =>
    rw [List.cons_append, takeAll, readAll]
    cases s.take a with
    | error e => rfl
    | ok s' => exact ih s'

theorem readAll_of_takeAll {s s' : State} {before after : List String}
    (h : s.takeAll (before ++ after) = .ok s') :
    ∃ t, s.readAll before = .ok t ∧ t.takeAll after = .ok s' := by
  rw [takeAll_append] at h
  cases hr : s.readAll before with
  | error e => simp [hr] at h
  | ok t => exact ⟨t, rfl, by simpa [hr] using h⟩

theorem readAll_concat {s s' : State} {before : List String} {a : String}
    (h : s.readAll (before ++ [a]) = .ok s') :
    ∃ t, s.readAll before = .ok t ∧ t.take a = .ok s' := by
  induction before generalizing s with
  | nil =>
    rw [List.nil_append, readAll] at h
    split at h
    · cases h
    · next t ht => exact ⟨s, rfl, by rw [ht]; exact h⟩
  | cons b bs ih =>
    rw [List.cons_append, readAll] at h
    split at h
    · cases h
    · next t ht =>
      rw [readAll, ht]
      exact ih h

theorem trailing_of_readAll {s s' : State} {before : List String} (h : s.readAll before = .ok s')
    (hs : s.trailing = false) (hflags : "--" ∉ before) : s'.trailing = false := by
  induction before generalizing s with
  | nil =>
    cases h
    exact hs
  | cons a as ih =>
    rw [readAll] at h
    split at h
    · cases h
    · next t ht =>
      obtain ⟨-, rfl, -⟩ | ⟨htrailing, -⟩ := take_cases ht
      · simp at hflags
      · exact ih h (htrailing.trans hs) fun hmem => hflags (List.mem_cons_of_mem a hmem)

theorem pretty_of_readAll {s s' : State} {before : List String} (h : s.readAll before = .ok s')
    (hpretty : "--pretty" ∉ before) : s'.pretty = s.pretty := by
  induction before generalizing s with
  | nil =>
    cases h
    rfl
  | cons a as ih =>
    rw [List.mem_cons, not_or] at hpretty
    rw [readAll] at h
    split at h
    · cases h
    · next t ht => exact (ih h hpretty.2).trans (pretty_of_take (fun _ => Ne.symm hpretty.1) ht)

end State

end ScriptManifest.CommandLine
