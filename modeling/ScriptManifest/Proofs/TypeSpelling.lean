import ScriptManifest.Proofs.TypeLayout
import ScriptManifest.Proofs.DeclarationSites

/-!
The text of a type. A type of one token has the text of that token, and the text of any other type
holds a character that the word `void` has not (`spelled_readType`). So layout cannot make a result
say `void`, nor keep it from saying so (`isVoid_relaid`).
-/

namespace ScriptManifest.Source

open Text

def SaysMore (s : String) : Prop := ∃ c ∈ s.toList, isBlank c = false ∧ c ∉ "void".toList

theorem mem_dropWhile_isBlank {s : List Char} {c : Char} (h : c ∈ s) (hc : isBlank c = false) :
    c ∈ s.dropWhile isBlank := by
  rw [← List.takeWhile_append_dropWhile (p := isBlank) (l := s), List.mem_append] at h
  apply h.resolve_left
  intro hmem
  have hblank := List.all_eq_true.mp List.all_takeWhile c hmem
  simp [hc] at hblank

theorem isVoid_of_saysMore {a : DeclaredType} (h : SaysMore a.text) : a.isVoid = false := by
  obtain ⟨c, hmem, hblank, hc⟩ := h
  have htrim : c ∈ trim a.text.toList := by
    rw [trim, trimStart, trimEnd, List.mem_reverse]
    exact mem_dropWhile_isBlank (List.mem_reverse.mpr (mem_dropWhile_isBlank hmem hblank)) hblank
  rw [DeclaredType.isVoid, beq_eq_false_iff_ne]
  intro hvoid
  rw [hvoid] at htrim
  exact hc htrim

theorem SaysMore.append_left {s : String} (h : SaysMore s) (t : String) : SaysMore (s ++ t) := by
  obtain ⟨c, hmem, hc⟩ := h
  exact ⟨c, by simp [hmem], hc⟩

theorem SaysMore.append_right {t : String} (h : SaysMore t) (s : String) : SaysMore (s ++ t) := by
  obtain ⟨c, hmem, hc⟩ := h
  exact ⟨c, by simp [hmem], hc⟩

theorem SaysMore.spelling {t : Token} (h : SaysMore t.text) {ts : List Token} (ht : t ∈ ts) :
    SaysMore (String.join (ts.map Token.spelling)) := by
  obtain ⟨c, hmem, hc⟩ := h
  refine ⟨c, ?_, hc⟩
  rw [String.toList_join, List.flatMap_map, List.mem_flatMap]
  exact ⟨t, ht, by simp [Token.spelling, hmem]⟩

theorem SaysMore.spell {t : Token} (h : SaysMore t.text) {ts : List Token} (ht : t ∈ ts) :
    SaysMore (spell ts) := by
  cases ts with
  | nil => cases ht
  | cons u us =>
    obtain rfl | ht := List.mem_cons.mp ht
    · exact h.append_left _
    · exact (h.spelling ht).append_right _

def tellingTexts : List String :=
  ["|", "&", "-", "<", ">", ".", "=>", "?", ":", ",", "=", "[", "(", "extends", "is", "keyof",
    "readonly", "typeof", "new", "infer", "const", "asserts", "unique", "abstract", "import"]

theorem saysMore_of_mem {s : String} (h : s ∈ tellingTexts) : SaysMore s := by
  have hall : ∀ s ∈ tellingTexts, (s.toList.any fun c => !isBlank c && c ∉ "void".toList) = true := by
    decide +kernel
  obtain ⟨c, hmem, hc⟩ := List.any_eq_true.mp (hall s h)
  exact ⟨c, hmem, by simpa using hc⟩

theorem saysMore_of_isMark {t : Token} {m : String} (h : t.isMark m = true)
    (hm : m ∈ tellingTexts) : SaysMore t.text := by
  rw [(Token.isMark_iff.mp h).2]
  exact saysMore_of_mem hm

theorem saysMore_of_opens {t : Token} {o : String} (h : t.opens o = true) (ho : o ∈ tellingTexts) :
    SaysMore t.text := by
  simp only [Token.opens, Bool.and_eq_true, beq_iff_eq] at h
  rw [h.2]
  exact saysMore_of_mem ho

/-! ### Types of one token and others -/

def OpenersTell (ts : List Token) : Prop := ∀ t ∈ ts, t.kind = .opener → SaysMore t.text

theorem OpenersTell.suffix {ts us : List Token} (h : OpenersTell ts) (hus : us <:+ ts) :
    OpenersTell us := fun t ht => h t (hus.subset ht)

theorem OpenersTell.of_bare {ts ts' : List Token} (h : OpenersTell ts)
    (hbare : ts'.map Token.bare = ts.map Token.bare) : OpenersTell ts' := by
  intro t ht hk
  have hmem : t.bare ∈ ts.map Token.bare := hbare ▸ List.mem_map_of_mem ht
  obtain ⟨u, hu, hbare⟩ := List.mem_map.mp hmem
  rw [← text_of_bare hbare]
  exact h u hu ((kind_of_bare hbare).trans hk)

/-- A text read off the front of some tokens, which has the text of the only token read, or says
more than `void`. -/
def Spelled (ts : List Token) (text : String) (rest : List Token) : Prop :=
  (∃ t, ts = t :: rest ∧ text = t.text) ∨ (rest.length + 1 < ts.length ∧ SaysMore text)

def Spells (read : List Token → Option (TypeNode × List Token)) : Prop :=
  ∀ ts, OpenersTell ts → ∀ a rest, read ts = some (a, rest) → Spelled ts a.text rest

theorem mem_operators_of_isTypeOperator {w : String} {next : Option Token}
    (h : isTypeOperator w next = true) : w ∈ tellingTexts := by
  unfold isTypeOperator at h
  split at h
  · cases h
  · split at h
    · decide
    · decide
    · decide
    · decide
    · decide
    · decide
    · decide
    · decide
    · decide
    · cases h

theorem saysMore_of_step {e e' : Extent} {t : Token} {next : Option Token}
    (h : e.step t next = some e') (hdepth : e.depth = 0) (hoperand : e.operand = false) :
    SaysMore t.text := by
  by_cases htext : t.text ∈ tellingTexts
  · exact saysMore_of_mem htext
  · simp only [tellingTexts, List.mem_cons, List.not_mem_nil, or_false, not_or] at htext
    simp only [Extent.step, hdepth, hoperand, Nat.lt_irrefl, if_false, Bool.false_eq_true] at h
    split at h
    · simp [htext] at h
    · simp [continuesArray, Token.opens, htext] at h
    · split at h <;> simp_all
    · cases h

theorem saysMore_or_of_step {e : Extent} {t : Token} {next : Option Token}
    (ht : t.kind = .opener → SaysMore t.text) {atEnd : Bool}
    (h : Extent.step { atEnd := atEnd } t next = some e) :
    SaysMore t.text ∨ (e.depth = 0 ∧ e.operand = false) := by
  simp only [Extent.step, Nat.lt_irrefl, if_false, if_true] at h
  split at h
  · cases h
    cases hoperator : isTypeOperator t.text next with
    | true => exact .inl (saysMore_of_mem (mem_operators_of_isTypeOperator hoperator))
    | false => exact .inr ⟨rfl, rfl⟩
  · cases h
    exact .inr ⟨rfl, rfl⟩
  · cases h
    exact .inr ⟨rfl, rfl⟩
  · next hk => exact .inl (ht hk)
  · by_cases htext : t.text ∈ tellingTexts
    · exact .inl (saysMore_of_mem htext)
    · simp only [tellingTexts, List.mem_cons, List.not_mem_nil, or_false, not_or] at htext
      split at h <;> simp_all
  · cases h

theorem spells_readWholeType (atEnd : Bool) : Spells (readWholeType atEnd) := by
  intro ts hts a rest h
  unfold readWholeType at h
  split at h
  · cases h
  · next n hn =>
    cases h
    cases ts with
    | nil => cases hn
    | cons t ts =>
      rw [typeLength] at hn
      split at hn
      · cases hn
      · next e hstep =>
        obtain rfl : n = typeLength e ts := by omega
        cases ts with
        | nil => exact .inl ⟨t, rfl, by simp [TypeNode.text, typeLength, spell]⟩
        | cons u us =>
          rw [typeLength]
          split
          · exact .inl ⟨t, rfl, by simp [TypeNode.text, spell]⟩
          · next e' hstep' =>
            have hu : u ∈ (t :: u :: us).take (1 + typeLength e' us + 1) := by
              rw [Nat.add_comm 1]
              simp
            refine .inr ⟨by simp only [List.length_drop, List.length_cons]; omega, ?_⟩
            rw [TypeNode.text]
            obtain ht | ⟨hdepth, hoperand⟩ := saysMore_or_of_step (hts t (by simp)) hstep
            · exact ht.spell (by simp)
            · exact (saysMore_of_step hstep' hdepth hoperand).spell hu

theorem Spelled.saysMore {ts rest : List Token} {text : String}
    (h : rest.length + 1 < ts.length) (ht : SaysMore text) : Spelled ts text rest := .inr ⟨h, ht⟩

theorem spelled_token (t : Token) (rest : List Token) : Spelled (t :: rest) t.text rest :=
  .inl ⟨t, rfl, rfl⟩

theorem mem_upTo {ts us rest : List Token} {t : Token} (h : t :: us <:+ ts)
    (hle : rest.length ≤ us.length) : t ∈ upTo ts rest := by
  obtain ⟨pre, rfl⟩ := h
  have hlength : (pre ++ t :: us).length - rest.length =
      pre.length + (us.length - rest.length + 1) := by
    simp only [List.length_append, List.length_cons]
    omega
  rw [upTo, hlength, List.take_length_add_append, List.take_succ_cons]
  simp

theorem dropDotted_cases (ts : List Token) :
    dropDotted ts = ts ∨
      ∃ dot us, ts = dot :: us ∧ dot.isMark "." = true ∧ (dropDotted ts).length < us.length := by
  fun_cases dropDotted ts with
  | case1 dot part ts h =>
    have hle := (dropDotted_suffix ts).length_le
    simp only [Bool.and_eq_true] at h
    exact .inr ⟨dot, part :: ts, rfl, h.1, by rw [List.length_cons]; omega⟩
  | case2 dot part ts _ => exact .inl rfl
  | case3 ts _ => exact .inl rfl

theorem spelled_readReference {fuel : Nat} {first : Token} {ts rest : List Token} {a : TypeNode}
    (h : readReference (fuel + 1) first ts = some (a, rest)) : Spelled (first :: ts) a.text rest := by
  have hsuffix := dropDotted_suffix ts
  have hle := hsuffix.length_le
  -- the name alone is one token, or there is a dot in it
  have hname : Spelled (first :: ts) (spell (first :: upTo ts (dropDotted ts))) (dropDotted ts) := by
    obtain hsame | ⟨dot, us, rfl, hdot, hlt⟩ := dropDotted_cases ts
    · rw [hsame, upTo_whole rfl]
      exact .inl ⟨first, rfl, by simp [spell]⟩
    · have hmem : dot ∈ upTo (dot :: us) (dropDotted (dot :: us)) :=
        mem_upTo (List.suffix_refl _) (by omega)
      exact .saysMore (by simp only [List.length_cons]; omega)
        ((saysMore_of_isMark hdot (by decide)).spell (by simp [hmem]))
  unfold readReference at h
  dsimp only at h
  split at h
  · next angle inner hinner =>
    rw [hinner] at hsuffix
    split at h
    · next hangle =>
      split at h
      · next args rest' hargs =>
        cases h
        have hrest := ((leavesSuffix_types fuel).2.2.2 inner args rest hargs).length_le
        have hinnerLe := hsuffix.length_le
        have hmem : angle ∈ upTo ts rest := mem_upTo hsuffix hrest
        rw [List.length_cons] at hinnerLe
        refine .saysMore (by rw [List.length_cons]; omega) ?_
        rw [TypeNode.text]
        exact (saysMore_of_isMark hangle (by decide)).spell (by simp [hmem])
      · cases h
    · cases h
      exact hname
  · cases h
    exact hname

theorem spelled_query {fuel : Nat} {t first : Token} {ts us rest : List Token} {a : TypeNode}
    (ht : t.text ∈ tellingTexts) (hus : us.length < ts.length)
    (h : (readReference fuel first us).map
      (fun r => (TypeNode.other (spell (upTo (t :: ts) r.2)), r.2)) = some (a, rest)) :
    Spelled (t :: ts) a.text rest := by
  obtain ⟨⟨b, rest'⟩, hread, heq⟩ := Option.map_eq_some_iff.mp h
  obtain ⟨rfl, rfl⟩ := Prod.mk.inj heq
  have hle := ((leavesSuffix_types fuel).2.2.1 first us b rest' hread).length_le
  have hmem : t ∈ upTo (t :: ts) rest' := mem_upTo (List.suffix_refl _) (by omega)
  dsimp only
  refine .saysMore (by rw [List.length_cons]; omega) ?_
  rw [TypeNode.text]
  exact (saysMore_of_mem ht).spell hmem

theorem spelled_word {fuel : Nat} {t : Token} {ts rest : List Token} {a : TypeNode}
    (hk : t.kind = .word) (h : readOperand (fuel + 1) (t :: ts) = some (a, rest)) :
    Spelled (t :: ts) a.text rest := by
  have hname : readReference fuel t ts = some (a, rest) → Spelled (t :: ts) a.text rest := by
    intro hread
    cases fuel with
    | zero => cases hread
    | succ fuel => exact spelled_readReference hread
  by_cases hp : t.text ∈ predefinedTypes
  · rw [readOperand_keyword hk _ _ hp] at h
    cases h
    exact spelled_token t _
  by_cases hl : t.text ∈ literalTypes
  · rw [readOperand_literal hk _ _ hp hl] at h
    cases h
    exact spelled_token t _
  by_cases hwords : t.text ∈ ["unique", "typeof", "import"]
  case neg =>
    rw [readOperand_name hk _ _ hp hl hwords] at h
    split at h
    · cases h
    · exact hname h
  cases ts with
  | nil =>
    rw [readOperand_last hk _ hp hl] at h
    exact hname h
  | cons u us =>
    simp only [List.mem_cons, List.not_mem_nil, or_false] at hwords
    obtain hunique | htypeof | himport := hwords
    · rw [readOperand_unique hk hunique] at h
      split at h
      · cases h
        refine .saysMore (by simp) ?_
        rw [TypeNode.text]
        exact (saysMore_of_mem (s := t.text) (by rw [hunique]; decide)).spell (by simp)
      · exact hname h
    · rw [readOperand_typeof hk htypeof] at h
      split at h
      case isFalse => cases h
      refine spelled_query (by rw [htypeof]; decide) ?_ h
      split
      · have hle := (dropCall_suffix us).length_le
        rw [List.length_cons]
        omega
      · simp
    · rw [readOperand_import hk himport] at h
      split at h
      · exact spelled_query (by rw [himport]; decide) (length_splitPiece_lt u us) h
      · exact hname h

theorem spells_readOperand (fuel : Nat) : Spells (readOperand fuel) := by
  intro ts hts a rest h
  cases fuel with
  | zero =>
    rw [readOperand.eq_def] at h
    cases h
  | succ fuel =>
    cases ts with
    | nil =>
      rw [readOperand.eq_def] at h
      cases h
    | cons t ts =>
      by_cases hword : t.kind = .word
      · exact spelled_word hword h
      rw [readOperand.eq_def] at h
      cases hk : t.kind with
      | word => exact (hword hk).elim
      | number | text =>
        simp only [hk] at h
        cases h
        exact spelled_token t _
      | opener =>
        simp only [hk, splitPiece, beq_self_eq_true, if_true] at h
        cases h
        have hsplit := splitGroup_append 0 ts
        cases hgroup : (splitGroup 0 ts).1 with
        | nil =>
          rw [hgroup, List.nil_append] at hsplit
          rw [hsplit]
          exact .inl ⟨t, rfl, by simp [TypeNode.text, spell]⟩
        | cons u us =>
          have hlength := congrArg List.length hsplit
          rw [hgroup, List.length_append, List.length_cons] at hlength
          refine .saysMore (by rw [List.length_cons]; omega) ?_
          rw [TypeNode.text]
          exact (hts t (by simp) hk).spell (by simp)
      | mark =>
        simp only [hk] at h
        split at h
        · split at h
          · next hminus =>
            cases h
            rw [Bool.and_eq_true] at hminus
            refine .saysMore (by simp) ?_
            rw [TypeNode.text]
            exact (saysMore_of_isMark hminus.1 (by decide)).spell (by simp)
          · cases h
        · cases h
      | _ =>
        simp only [hk] at h
        cases h

theorem Spelled.readSuffixes {ts rest : List Token} {a : TypeNode} (h : Spelled ts a.text rest)
    (atEnd : Bool) (fuel : Nat) :
    Spelled ts (readSuffixes atEnd fuel a rest).1.text (Source.readSuffixes atEnd fuel a rest).2 := by
  induction fuel generalizing a rest with
  | zero => exact h
  | succ fuel ih =>
    cases rest with
    | nil => exact h
    | cons t rest =>
      rw [Source.readSuffixes]
      split
      · next hbracket =>
        have hopens : t.opens "[" = true := (Bool.and_eq_true_iff.mp hbracket).1
        have hmem : t ∈ (splitPiece (t :: rest)).1 := by
          rw [splitPiece]
          split <;> simp
        have hbrackets := ((saysMore_of_opens hopens (by decide)).spelling hmem).append_right a.text
        have hlt := length_splitPiece_lt t rest
        have hlength : (t :: rest).length < ts.length := by
          obtain ⟨u, rfl, -⟩ | ⟨hlt, -⟩ := h
          · simp
          · omega
        have hspelled : Spelled ts
            (a.text ++ String.join ((splitPiece (t :: rest)).1.map Token.spelling))
            (splitPiece (t :: rest)).2 := .saysMore (by omega) hbrackets
        refine ih ?_
        split <;> exact hspelled
      · exact h

theorem spells_readType (atEnd : Bool) (fuel : Nat) : Spells (readType atEnd fuel) := by
  intro ts hts a rest h
  cases fuel with
  | zero => cases h
  | succ fuel =>
    rw [readType] at h
    split at h
    · exact spells_readWholeType atEnd ts hts a rest h
    · split at h
      · exact spells_readWholeType atEnd ts hts a rest h
      · next b rest' hread =>
        dsimp only at h
        split at h
        · exact spells_readWholeType atEnd ts hts a rest h
        · cases h
          exact (spells_readOperand fuel ts hts b rest' hread).readSuffixes atEnd _

theorem spelled_readDeclaredType (atEnd : Bool) {ts : List Token} (hts : OpenersTell ts)
    (a : DeclaredType) (rest : List Token) (h : readDeclaredType atEnd ts = some (a, rest)) :
    Spelled ts a.text rest := by
  obtain ⟨⟨node, rest'⟩, hread, heq⟩ := Option.map_eq_some_iff.mp h
  cases heq
  rw [TypeNode.text_lower]
  exact spells_readType atEnd _ ts hts node _ hread

theorem isVoid_of_spelled {held : Nat → Bool} {ts ts' rest rest' : List Token}
    {a a' : DeclaredType} (h : Relaid held ts ts') (hrest : Relaid held rest rest')
    (ha : Spelled ts a.text rest) (ha' : Spelled ts' a'.text rest') : a'.isVoid = a.isVoid := by
  have hlength := h.length
  have hlengthRest := hrest.length
  obtain ⟨t, rfl, htext⟩ | ⟨hlt, hmore⟩ := ha
  · obtain ⟨t', rfl, htext'⟩ | ⟨hlt, -⟩ := ha'
    · cases h with
      | cons hbare _ _ _ _ =>
        rw [DeclaredType.isVoid, DeclaredType.isVoid, htext, htext', text_of_bare hbare]
    · rw [List.length_cons] at hlength
      omega
  · obtain ⟨t', rfl, -⟩ | ⟨-, hmore'⟩ := ha'
    · rw [List.length_cons] at hlength
      omega
    · rw [isVoid_of_saysMore hmore, isVoid_of_saysMore hmore']

theorem isVoid_relaid {held : Nat → Bool} {atEnd : Bool} {ts ts' : List Token}
    (h : Relaid held ts ts') (hheld : atEnd = true → ∀ n ∈ resultStops ts, held n = true)
    (hts : OpenersTell ts) :
    (readResult atEnd ts').1.map DeclaredType.isVoid =
      (readResult atEnd ts).1.map DeclaredType.isVoid := by
  cases h with
  | nil => rfl
  | @cons colon colon' ts ts' hbare _ _ _ htail =>
    have hts := hts.suffix (List.suffix_cons colon ts)
    rw [resultStops] at hheld
    have hlength := typeLength_relaid htail (extentStops_held hheld)
    rw [readResult_cons, readResult_cons]
    simp only [isMark_of_bare hbare, startsPredicate_relaid htail, hlength]
    split
    · rfl
    · next hcolon =>
      simp only [Bool.not_eq_true', Bool.not_eq_false] at hcolon
      have hmore {t : Token} (ht : t.isMark ":" = true) (us : List Token) :
          SaysMore (DeclaredType.other (spell (t :: us))).text := by
        rw [DeclaredType.text]
        exact (saysMore_of_isMark ht (by decide)).spell (by simp)
      split
      · have hcolon' : colon'.isMark ":" = true := by rwa [isMark_of_bare hbare]
        simp only [Option.map_some, isVoid_of_saysMore (hmore hcolon _),
          isVoid_of_saysMore (hmore hcolon' _)]
      · have hread := readDeclaredType_relaid htail hheld
        have hspelled := spelled_readDeclaredType atEnd hts
        have hspelled' := spelled_readDeclaredType atEnd (hts.of_bare htail.map_bare)
        generalize readDeclaredType atEnd ts = r at hread hspelled
        generalize readDeclaredType atEnd ts' = r' at hread hspelled'
        cases hread with
        | none => rfl
        | some _ hrest =>
          have hvoid := isVoid_of_spelled htail hrest (hspelled _ _ rfl) (hspelled' _ _ rfl)
          simp only [Option.map_some, hvoid]

end ScriptManifest.Source
