import ScriptManifest.Proofs.CommandLineFlags

/-!
Arguments that give something for the second time. What a state has stored and what it holds pending
are counted together (`State.claimed`). No argument takes any of it back (`claimed_le_of_take`), one
that gives something adds to it (`claimed_lt_of_gives`), and a line that is read to its end has been
given nothing twice; so a line with two arguments that give the same is not
(`takeAll_ne_ok_of_gives`).
-/

namespace ScriptManifest.CommandLine

/-- What a command line may give once. -/
inductive Kind
  | input
  | option (option : Valued)
  | pretty
deriving DecidableEq, Repr

def Valued.name : Valued → String
  | .output => "output"
  | .config => "config"

/-- A dash, some `v` and what follows them. -/
def bundle (n : Nat) (rest : List Char) : String :=
  String.ofList ('-' :: (List.replicate n 'v' ++ rest))

namespace State

/-! ### What a state has been given -/

def value (s : State) : Valued → Option String
  | .output => s.output
  | .config => s.config

def withValue (s : State) (option : Valued) (value : String) : State :=
  match option with
  | .output => { s with output := some value }
  | .config => { s with config := some value }

def stored (s : State) : Kind → Bool
  | .input => s.hasInput
  | .option option => (s.value option).isSome
  | .pretty => s.pretty

/-- How often something has been given so far, an option that is still pending included. -/
def claimed (s : State) (kind : Kind) : Nat :=
  (s.stored kind).toNat +
    match s.pending with
    | .bare option => if kind = .option option then 1 else 0
    | .valued option _ => if kind = .option option then 1 else 0
    | .nothing | .input _ => 0

theorem setValue_eq_ok_iff {s s' : State} {option : Valued} {value : String} :
    s.setValue option value = .ok s' ↔
      s.value option = none ∧ value ≠ "" ∧ s' = s.withValue option value := by
  cases option with
  | output =>
    simp only [setValue, State.value, withValue, eq_comm (a := s')]
    cases s.output <;> by_cases hv : value = "" <;> simp [hv]
  | config =>
    simp only [setValue, State.value, withValue, eq_comm (a := s')]
    cases s.config <;> by_cases hv : value = "" <;> simp [hv]

theorem setValue_of_isSome {s : State} {option : Valued} (h : (s.value option).isSome = true)
    (value : String) : s.setValue option value = .error .conflict := by
  cases option with
  | output => exact if_pos h
  | config => exact if_pos h

theorem stored_withValue (s : State) (option : Valued) (value : String) (kind : Kind) :
    (s.withValue option value).stored kind = (s.stored kind || decide (kind = .option option)) := by
  cases option <;> cases kind with
  | option option' => cases option' <;> simp [withValue, stored, State.value]
  | _ => simp [withValue, stored]

theorem pending_withValue (s : State) (option : Valued) (value : String) :
    (s.withValue option value).pending = s.pending := by
  cases option <;> rfl

theorem trailing_withValue (s : State) (option : Valued) (value : String) :
    (s.withValue option value).trailing = s.trailing := by
  cases option <;> rfl

theorem claimed_setValue {s s' : State} {option : Valued} {value : String}
    (h : s.setValue option value = .ok s') (kind : Kind) :
    s'.claimed kind = s.claimed kind + if kind = .option option then 1 else 0 := by
  obtain ⟨hnone, -, rfl⟩ := setValue_eq_ok_iff.mp h
  rw [claimed, claimed, pending_withValue, stored_withValue]
  by_cases hkind : kind = .option option
  · simp [hkind, stored, hnone, Nat.add_comm]
  · simp [hkind]

theorem claimed_eq_toNat {s : State} (h : s.pending = .nothing) (kind : Kind) :
    s.claimed kind = (s.stored kind).toNat := by
  rw [claimed, h, Nat.add_zero]

theorem claimed_settle {s s' : State} (h : s.settle = .ok s') (kind : Kind) :
    s'.claimed kind = s.claimed kind := by
  unfold settle at h
  dsimp only at h
  split at h
  · next hp =>
    cases h
    simp only [claimed, hp]
    rfl
  · next hp =>
    split at h
    · cases h
    · cases h
      simp only [claimed, hp]
      rfl
  · cases h
  · next option value hp =>
    rw [claimed_setValue h, claimed, claimed, hp]
    rfl

theorem claimed_le_one {s s' : State} (h : s.settle = .ok s') (kind : Kind) : s.claimed kind ≤ 1 := by
  rw [← claimed_settle h, claimed_eq_toNat (settle_cases h).1]
  exact Bool.toNat_le _

theorem claimed_takeValued {s s' : State} {option : Valued} {attached : Option String}
    (h : s.takeValued option attached = .ok s') (kind : Kind) :
    s'.claimed kind = s.claimed kind + if kind = .option option then 1 else 0 := by
  unfold takeValued at h
  split at h
  · cases h
  · next t ht =>
    rw [← claimed_settle ht]
    cases attached with
    | some value => exact claimed_setValue h kind
    | none =>
      cases h
      rw [claimed_eq_toNat (settle_cases ht).1]
      rfl

theorem claimed_takeFlag {s s' : State} {flag : Flag} (h : s.takeFlag flag = .ok s') (kind : Kind) :
    s'.claimed kind = s.claimed kind + if flag = .pretty ∧ kind = .pretty then 1 else 0 := by
  unfold takeFlag at h
  split at h
  · cases h
  · next t ht =>
    rw [← claimed_settle ht]
    cases flag with
    | help => cases h
    | version => cases h
    | verbose =>
      cases h
      cases kind <;> rfl
    | pretty =>
      dsimp only at h
      split at h
      · cases h
      · next hplain =>
        cases h
        cases kind with
        | pretty => simp [claimed, stored, hplain, Nat.add_comm]
        | _ => rfl

theorem claimed_takeInput {s s' : State} {word : String} (h : s.takeInput word = .ok s')
    (kind : Kind) : s'.claimed kind = s.claimed kind + if kind = .input then 1 else 0 := by
  unfold takeInput at h
  split at h
  · cases h
  · next hinput =>
    split at h
    · cases h
    · next t ht =>
      cases h
      have hno : t.hasInput = false := (settle_cases ht).2.2.trans (by simpa using hinput)
      rw [← claimed_settle ht, claimed_eq_toNat (settle_cases ht).1]
      cases kind with
      | input => simp [claimed, stored, hno]
      | _ => rfl

theorem claimed_takeShort {s s' : State} {letters : List Char} (h : s.takeShort letters = .ok s')
    (kind : Kind) :
    s'.claimed kind = s.claimed kind +
      if kind = .option .output ∧ (letters.dropWhile (· == 'v')).head? = some 'o' then 1 else 0 := by
  induction letters generalizing s with
  | nil =>
    cases h
    simp
  | cons c cs ih =>
    unfold takeShort at h
    dsimp only at h
    split at h
    · simpa using claimed_takeValued h kind
    · split at h
      · cases h
      · next t ht => simpa [claimed_takeFlag ht] using ih h
    · split at h
      · cases h
      · next t ht => exact (takeFlag_help_ne_ok s t ht).elim
    · split at h
      · cases h
      · next t ht => exact (takeFlag_version_ne_ok s t ht).elim
    · cases h

theorem claimed_le_of_takeWord {s s' : State} {word : String} (h : s.takeWord word = .ok s')
    (kind : Kind) : s.claimed kind ≤ s'.claimed kind := by
  rw [takeWord_eq] at h
  split at h
  · next option hp =>
    split at h
    · exact Nat.le.intro (claimed_takeInput h kind).symm
    · cases h
      simp only [claimed, hp]
      exact Nat.le_refl _
  · exact Nat.le.intro (claimed_takeInput h kind).symm

theorem claimed_le_of_takeLong {s s' : State} {body : List Char} (h : s.takeLong body = .ok s')
    (kind : Kind) : s.claimed kind ≤ s'.claimed kind := by
  have hflag : ∀ {attached : Option String} {flag : Flag},
      (if attached.isSome then .error .tooManyValues else s.takeFlag flag) = .ok s' →
        s.claimed kind ≤ s'.claimed kind := by
    intro attached flag ht
    split at ht
    · cases ht
    · exact Nat.le.intro (claimed_takeFlag ht kind).symm
  unfold takeLong at h
  dsimp only at h
  split at h
  · exact Nat.le.intro (claimed_takeValued h kind).symm
  · exact Nat.le.intro (claimed_takeValued h kind).symm
  · exact hflag h
  · exact hflag h
  · exact hflag h
  · exact hflag h
  · cases h

/-- No argument takes back what has been given. -/
theorem claimed_le_of_take {s s' : State} {argument : String} (h : s.take argument = .ok s')
    (kind : Kind) : s.claimed kind ≤ s'.claimed kind := by
  unfold take at h
  split at h
  · exact claimed_le_of_takeWord h kind
  · split at h
    · cases h
      cases kind <;> exact Nat.le_refl _
    · exact claimed_le_of_takeLong h kind
    · exact Nat.le.intro (claimed_takeShort h kind).symm
    · exact claimed_le_of_takeWord h kind

theorem claimed_le_of_readAll {s s' : State} {args : List String} (h : s.readAll args = .ok s')
    (kind : Kind) : s.claimed kind ≤ s'.claimed kind := by
  induction args generalizing s with
  | nil =>
    cases h
    exact Nat.le_refl _
  | cons a as ih =>
    rw [readAll] at h
    split at h
    · cases h
    · next t ht => exact Nat.le_trans (claimed_le_of_take ht kind) (ih h)

theorem claimed_le_one_of_takeAll {s s' : State} {args : List String} (h : s.takeAll args = .ok s')
    (kind : Kind) : s.claimed kind ≤ 1 := by
  induction args generalizing s with
  | nil => exact claimed_le_one h kind
  | cons a as ih =>
    rw [takeAll] at h
    split at h
    · cases h
    · next t ht => exact Nat.le_trans (claimed_le_of_take ht kind) (ih h)

/-! ### Arguments that give something -/

theorem take_long {s : State} (ht : s.trailing = false) {argument : String} {c : Char}
    {cs : List Char} (h : argument.toList = '-' :: '-' :: c :: cs) :
    s.take argument = s.takeLong (c :: cs) := by
  unfold take
  rw [if_neg (by simp [ht]), h]
  split
  · next heq => cases heq
  · next heq =>
    cases heq
    rfl
  · next hno heq =>
    cases heq
    exact (hno rfl).elim
  · next hno _ => exact (hno (c :: cs) rfl).elim

theorem take_option {s : State} (ht : s.trailing = false) (option : Valued) :
    s.take ("--" ++ option.name) = s.takeValued option none := by
  cases option with
  | output => exact take_long ht (show "--output".toList = '-' :: '-' :: 'o' :: _ from rfl)
  | config => exact take_long ht (show "--config".toList = '-' :: '-' :: 'c' :: _ from rfl)

theorem take_optionEquals {s : State} (ht : s.trailing = false) (option : Valued) (value : String) :
    s.take ("--" ++ option.name ++ "=" ++ value) = s.takeValued option (some value) := by
  have htext : ("--" ++ option.name ++ "=" ++ value).toList =
      '-' :: '-' :: (option.name.toList ++ '=' :: value.toList) := by
    simp
  cases option with
  | output =>
    rw [take_long ht htext]
    change s.takeValued .output (some (String.ofList value.toList)) = _
    rw [String.ofList_toList]
  | config =>
    rw [take_long ht htext]
    change s.takeValued .config (some (String.ofList value.toList)) = _
    rw [String.ofList_toList]

theorem take_bundle {s : State} (ht : s.trailing = false) (n : Nat) (rest : List Char) :
    s.take (bundle n ('o' :: rest)) = s.takeShort (List.replicate n 'v' ++ 'o' :: rest) := by
  cases n with
  | zero => exact take_letters ht (by decide) rest
  | succ n => exact take_letters ht (by decide) (List.replicate n 'v' ++ 'o' :: rest)

theorem take_word {s : State} (ht : s.trailing = false) {word : String}
    (h : word = "-" ∨ word.toList.head? ≠ some '-') : s.take word = s.takeWord word := by
  unfold take
  rw [if_neg (by simp [ht])]
  obtain rfl | h := h
  · rfl
  · split
    · next heq => simp [heq] at h
    · next heq => simp [heq] at h
    · next heq => simp [heq] at h
    · rfl

end State

/-- An argument that gives an option, with its value or without. -/
inductive Names : Valued → String → Prop
  | long (option : Valued) : Names option ("--" ++ option.name)
  | longEquals (option : Valued) (value : String) :
    Names option ("--" ++ option.name ++ "=" ++ value)
  | short (n : Nat) (rest : List Char) : Names .output (bundle n ('o' :: rest))

/-- What an argument gives behind others, as their text has it: an option or the flag, as long as the
flags have not ended; and the input, if it stands behind the end of the flags, or if it is a word and
no option waits for its value. -/
inductive Gives : Kind → List String → String → Prop
  | option {before : List String} {option : Valued} {argument : String} (hflags : "--" ∉ before)
    (h : Names option argument) : Gives (.option option) before argument
  | pretty {before : List String} (hflags : "--" ∉ before) : Gives .pretty before "--pretty"
  | word {before : List String} {word : String} (hpos : IsFlagPosition before)
    (h : word = "-" ∨ word.toList.head? ≠ some '-') : Gives .input before word
  | trailing {before : List String} (h : "--" ∈ before) (word : String) : Gives .input before word

namespace State

theorem claimed_lt_of_names {s s' : State} (ht : s.trailing = false) {option : Valued}
    {argument : String} (hnames : Names option argument) (h : s.take argument = .ok s') :
    s.claimed (.option option) < s'.claimed (.option option) := by
  cases hnames with
  | long =>
    rw [take_option ht] at h
    simp [claimed_takeValued h]
  | longEquals _ value =>
    rw [take_optionEquals ht] at h
    simp [claimed_takeValued h]
  | short n rest =>
    rw [take_bundle ht] at h
    simp [claimed_takeShort h]

theorem trailing_of_mem {s s' : State} {before : List String} (h : s.readAll before = .ok s')
    (hmem : s.trailing = true ∨ "--" ∈ before) : s'.trailing = true := by
  induction before generalizing s with
  | nil =>
    cases h
    simpa using hmem
  | cons a as ih =>
    rw [readAll] at h
    split at h
    · cases h
    · next t ht =>
      apply ih h
      obtain ⟨-, -, rfl⟩ | ⟨htrailing, -⟩ := take_cases ht
      · exact .inl rfl
      · rw [htrailing]
        obtain hs | hmem := hmem
        · exact .inl hs
        · obtain rfl | hmem := List.mem_cons.mp hmem
          · cases hs : s.trailing with
            | true => exact .inl rfl
            | false =>
              rw [take_end hs] at ht
              cases ht
              cases htrailing.trans hs
          · exact .inr hmem

/-- What an argument gives is counted. -/
theorem claimed_lt_of_gives {kind : Kind} {before : List String} {argument : String}
    (hgives : Gives kind before argument) {s s' : State} (hread : readAll {} before = .ok s)
    (h : s.take argument = .ok s') : s.claimed kind < s'.claimed kind := by
  cases hgives with
  | option hflags hnames => exact claimed_lt_of_names (trailing_of_readAll hread rfl hflags) hnames h
  | pretty hflags =>
    rw [take_pretty (trailing_of_readAll hread rfl hflags)] at h
    simp [claimed_takeFlag h]
  | word hpos hword =>
    have ⟨htrailing, hbare⟩ := readAll_flagPosition hread hpos
    rw [take_word htrailing hword, takeWord_eq] at h
    split at h
    · next option hp => exact (hbare option hp).elim
    · simp [claimed_takeInput h]
  | trailing hend =>
    have htrailing := trailing_of_mem hread (.inr hend)
    have hinput : s.takeInput argument = .ok s' := by
      rw [take, if_pos htrailing, takeWord_eq] at h
      split at h
      · rwa [if_pos htrailing] at h
      · exact h
    simp [claimed_takeInput hinput]

theorem exists_readAll_of_append {s s' : State} {before after : List String}
    (h : s.readAll (before ++ after) = .ok s') :
    ∃ t, s.readAll before = .ok t ∧ t.readAll after = .ok s' := by
  induction before generalizing s with
  | nil => exact ⟨s, rfl, h⟩
  | cons a as ih =>
    rw [List.cons_append, readAll] at h
    split at h
    · cases h
    · next t ht =>
      rw [readAll, ht]
      exact ih h

theorem claimed_pos_of_gives {kind : Kind} {before between : List String} {argument : String}
    (hgives : Gives kind before argument) {s : State}
    (h : readAll {} (before ++ argument :: between) = .ok s) : 0 < s.claimed kind := by
  obtain ⟨t, hread, hrest⟩ := exists_readAll_of_append h
  rw [readAll] at hrest
  split at hrest
  · cases hrest
  · next t' ht' =>
    have hlt := claimed_lt_of_gives hgives hread ht'
    have hle := claimed_le_of_readAll hrest kind
    omega

/-- Nothing that may be given once is given twice. -/
theorem takeAll_ne_ok_of_gives {kind : Kind} {before between after : List String} {a b : String}
    (ha : Gives kind before a) (hb : Gives kind (before ++ a :: between) b) (s : State) :
    takeAll {} (before ++ a :: between ++ b :: after) ≠ .ok s := by
  intro h
  obtain ⟨t, hread, hrest⟩ := readAll_of_takeAll h
  have hfirst := claimed_pos_of_gives ha hread
  rw [takeAll] at hrest
  split at hrest
  · cases hrest
  · next t' ht' =>
    have hsecond := claimed_lt_of_gives hb hread ht'
    have hone := claimed_le_one_of_takeAll hrest kind
    omega

end State

end ScriptManifest.CommandLine
