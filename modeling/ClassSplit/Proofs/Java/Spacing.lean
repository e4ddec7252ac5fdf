import ClassSplit.Proofs.Java.Grammar.Expression
import ClassSplit.Proofs.Java.Joined

/-!
What stands between and behind the parts of an expression. Blanks and comments between two tokens
hide neither of them; behind an operand they, an operator or the end of the expression show that
it goes on no further, whatever the next operand has become.
-/

namespace ClassSplit.Java

open Number

variable {cs r r' w after gap gap' : List Char} {word object method : String}

namespace Blank

theorem head? (h : Blank cs) : ∀ c ∈ cs.head?, isGap c = true ∨ c = '/' := by
  have hgap : ∀ {w : List Char}, (∀ c ∈ w, isGap c = true) → ∀ c ∈ w.head?, isGap c = true :=
    fun hw c hc => hw c (List.mem_of_head? hc)
  intro c hc
  cases h with
  | gap hw => exact .inl (hgap hw c hc)
  | @comment kind w u rest hw hu =>
    cases w with
    | nil =>
      cases hu with
      | line | block => exact .inr (Option.some.inj hc).symm
    | cons d w => exact .inl (hgap hw c hc)

theorem apart {c : Char} (h : isGap c = true ∨ c = '/') : isPart c = false ∧ isSign c = false ∧
    isIdentifierPart c = false ∧ c.isDigit = false ∧ c ∉ gluing := by
  simp only [isGap, Bool.or_eq_true, beq_iff_eq] at h
  obtain (((rfl | rfl) | rfl) | rfl) | rfl := h
  all_goals decide +kernel

theorem scans_gap (hw : ∀ c ∈ w, isGap c = true) (hr : ∀ c ∈ r.head?, isGap c = false) :
    ∃ fs, Scans w fs r ∧ ∀ offset, tokensFrom offset fs = [] := by
  by_cases hne : w = []
  case pos =>
    subst hne
    exact ⟨[], .nil r, fun _ => rfl⟩
  case neg => exact ⟨_, .single hne (stepInCode_gap hne hw hr), fun _ => rfl⟩

-- In front of a token no token is found in it.
theorem scans (h : Blank cs) (hafter : ∀ c ∈ after.head?, isGap c = false) :
    ∃ fs, Scans cs fs after ∧ ∀ offset, tokensFrom offset fs = [] := by
  induction h with
  | gap hw => exact scans_gap hw hafter
  | @comment kind w u rest hw hu hline _ ih =>
    obtain ⟨gs, hgs, hnone⟩ := ih
    have hfirst : ∀ c ∈ (u ++ rest ++ after).head?, isGap c = false := by
      intro c hc
      cases hu with
      | line | block =>
        obtain rfl := Option.some.inj hc
        rfl
    have hend : kind = .lineComment → ∀ c ∈ (rest ++ after).head?, c = '\n' := by
      intro hkind c hc
      rw [List.head?_append, hline hkind] at hc
      exact (Option.some.inj hc).symm
    have hne : u ≠ [] := by
      cases hu with
      | line | block => exact List.cons_ne_nil _ _
    obtain ⟨fs, hfs, hnone'⟩ := scans_gap hw hfirst
    refine ⟨fs ++ (⟨.comment kind, u⟩ :: gs), ?_, fun offset => ?_⟩
    · exact hfs.append ((Scans.single hne (stepInCode_comment hu hend)).append hgs)
    · rw [tokensFrom_append, hnone', tokensFrom_comment, hnone, List.nil_append]

theorem space : Blank [' '] := .gap (List.all_eq_true.mp (by decide))

end Blank

-- What may stand behind an operand, given what has stood there before.
structure GoesBefore (r r' : List Char) : Prop where
  number : Follows r r'
  apart : ∀ c ∈ r'.head?, isPart c = false ∧ isIdentifierPart c = false

-- How an operand begins, given how it has begun before.
structure Begins (r r' : List Char) : Prop where
  first : ∃ c tail, r' = c :: tail ∧ isGap c = false ∧ c ∉ gluing ∧ c ≠ '/'
  number : ∀ s, isSign s = true → Follows (s :: r) (s :: r')

section Following

theorem GoesBefore.of_blank (h : Blank gap) (hne : gap ≠ []) (r r' : List Char) :
    GoesBefore (gap ++ r) (gap ++ r') := by
  have hhead : ∀ c ∈ (gap ++ r').head?, isGap c = true ∨ c = '/' := by
    intro c hc
    rw [List.head?_append_of_ne_nil _ hne] at hc
    exact h.head? c hc
  refine ⟨.stop fun c hc => ?_, fun c hc => ?_⟩
  all_goals
    obtain ⟨hpart, hsign, hword, -⟩ := Blank.apart (hhead c hc)
    exact ⟨hpart, by assumption⟩

-- A mark goes on no operand, but a sign could go on a number.
theorem GoesBefore.of_mark (h : word ∈ [")", ";"] ++ Operator.all.map (·.sign))
    (hsign : ∀ s, word.toList = [s] → isSign s = true → Follows (s :: r) (s :: r')) :
    GoesBefore (word.toList ++ r) (word.toList ++ r') := by
  have hwords : ∀ word ∈ [")", ";"] ++ Operator.all.map (·.sign), word.toList.head?.any (fun c =>
      !isPart c && !isIdentifierPart c && (!isSign c || word.toList == [c])) = true := by
    decide +kernel
  obtain ⟨c, hc, hall⟩ := (Option.any_eq_true _ _).mp (hwords word h)
  obtain ⟨tail, hword⟩ := List.head?_eq_some_iff.mp hc
  simp only [Bool.and_eq_true, Bool.not_eq_true', Bool.or_eq_true, beq_iff_eq] at hall
  obtain ⟨⟨hpart, hidentifier⟩, hone⟩ := hall
  rw [hword]
  refine ⟨?_, fun d hd => ?_⟩
  · obtain hsigned | hone := hone
    · refine .stop fun d hd => ?_
      obtain rfl := Option.some.inj hd
      exact ⟨hpart, hsigned⟩
    · cases hs : isSign c with
      | false =>
        refine .stop fun d hd => ?_
        obtain rfl := Option.some.inj hd
        exact ⟨hpart, hs⟩
      | true =>
        obtain rfl : tail = [] := by simpa [hword] using hone
        exact hsign c hone hs
  · obtain rfl := Option.some.inj hd
    exact ⟨hpart, hidentifier⟩

-- The end of an expression, perhaps behind blanks and comments.
theorem GoesBefore.of_closing (hgap : Blank gap) (hword : word ∈ [")", ";"]) (r r' : List Char) :
    GoesBefore (gap ++ (word.toList ++ r)) (gap ++ (word.toList ++ r')) := by
  by_cases hne : gap = []
  case pos =>
    subst hne
    refine .of_mark (List.mem_append_left _ hword) fun s hs hsign => ?_
    simp only [List.mem_cons, List.not_mem_nil, or_false] at hword
    obtain rfl | rfl := hword
    all_goals
      obtain rfl : _ = s := by simpa using hs
      cases hsign
  case neg => exact .of_blank hgap hne _ _

-- An operator and another operand.
theorem GoesBefore.of_operator (o : Operator) (hgap : Blank gap) (hgap' : Blank gap')
    (hright : Begins r r') :
    GoesBefore (gap ++ (o.sign.toList ++ (gap' ++ r))) (gap ++ (o.sign.toList ++ (gap' ++ r'))) := by
  by_cases hne : gap = []
  case pos =>
    subst hne
    refine .of_mark (List.mem_append_right _ (by cases o <;> decide)) fun s _ hs => ?_
    by_cases hne' : gap' = []
    case pos =>
      subst hne'
      exact hright.number s hs
    case neg =>
      refine .sign hs fun c hc => ?_
      rw [List.head?_append_of_ne_nil _ hne'] at hc
      obtain ⟨-, -, -, hdigit, -⟩ := Blank.apart (hgap'.head? c hc)
      exact hdigit
  case neg => exact .of_blank hgap hne _ _

theorem Begins.isGap (h : Begins r r') : ∀ c ∈ r'.head?, isGap c = false := by
  obtain ⟨c, tail, rfl, hgap, -⟩ := h.first
  intro d hd
  obtain rfl := Option.some.inj hd
  exact hgap

-- A letter begins no number.
theorem Begins.of_word (h : SpellsIdentifier w) (r r' : List Char) : Begins r (w ++ r') := by
  obtain ⟨c, v, rfl, hc, -⟩ := h
  have hne := ne_of_isIdentifierStart hc
  refine ⟨⟨c, v ++ r', rfl, isGap_of_isIdentifierStart hc,
    fun hmem => hne c (apart_of_mem_gluing hmem).left rfl, hne '/' (by decide +kernel)⟩, ?_⟩
  · refine fun s hs => .sign hs fun d hd => ?_
    obtain rfl := Option.some.inj hd
    refine Bool.eq_false_iff.mpr fun hdigit => ?_
    rw [isIdentifierStart_of_isDigit hdigit] at hc
    cases hc

theorem Begins.of_parenthesis (r r' : List Char) : Begins r ('(' :: r') := by
  refine ⟨⟨'(', r', rfl, by decide, by decide, by decide⟩, fun s hs => .sign hs fun d hd => ?_⟩
  obtain rfl := Option.some.inj hd
  rfl

theorem Begins.of_numeral (h : IsNumeral w) (hr : ∀ c ∈ r'.head?, isPart c = false) :
    Begins (w ++ r) (w ++ r') := by
  have hunsigned := h.unsigned
  obtain ⟨d, v, rfl, hd⟩ := h.begins
  have hne : ∀ e : Char, e.isDigit = false → d ≠ e := fun e => ne_of_isDigit hd
  refine ⟨⟨d, v ++ r', rfl, ?_, fun hmem => hne d (apart_of_mem_gluing hmem).right rfl,
    hne _ (by decide)⟩, fun s hs => .shared hs hunsigned hr⟩
  simp [Java.isGap, hne ' ' (by decide), hne '\t' (by decide), hne '\r' (by decide),
    hne '\n' (by decide)]

end Following

section Marks

theorem scans_bracket (h : word ∈ brackets) (after : List Char) :
    Scans word.toList [⟨.token (.token word), word.toList⟩] after := by
  have hapart : ∀ word ∈ brackets, word.toList ≠ [] ∧ word ∉ signs ∧ word ≠ "/" ∧ word ≠ "." := by
    decide
  obtain ⟨hne, hsign, hslash, hdot⟩ := hapart word h
  exact .single hne (stepInCode_mark (List.mem_append_left _ h) (absurd · hsign) (absurd · hslash)
    (absurd · hdot))

theorem scans_parenthesis (after : List Char) :
    Scans ['('] [⟨.token (.token "("), ['(']⟩] after :=
  scans_bracket (show "(" ∈ brackets by decide) after

theorem scans_closing (after : List Char) :
    Scans [')'] [⟨.token (.token ")"), [')']⟩] after :=
  scans_bracket (show ")" ∈ brackets by decide) after

theorem scans_semicolon (after : List Char) :
    Scans [';'] [⟨.token (.token ";"), [';']⟩] after :=
  scans_bracket (show ";" ∈ brackets by decide) after

theorem scans_brace (after : List Char) :
    Scans ['\x7d'] [⟨.token (.token "\x7d"), ['\x7d']⟩] after :=
  scans_bracket (show "\x7d" ∈ brackets by decide) after

theorem scans_sign (h : word ∈ signs) (hafter : ∀ c ∈ after.head?, c ∉ gluing)
    (hslash : word = "/" → after.head? ≠ some '/')
    (hdot : word = "." → ∀ c ∈ after.head?, c.isDigit = false) :
    Scans word.toList [⟨.token (.token word), word.toList⟩] after := by
  have hne : ∀ word ∈ signs, word.toList ≠ [] := by decide
  exact .single (hne word h) (stepInCode_mark (List.mem_append_right _ h) (fun _ => hafter) hslash
    hdot)

-- An operator and the blanks behind it, in front of an operand.
theorem Operator.scans (o : Operator) (hgap : Blank gap) (hright : Begins r r')
    (hslash : o.sign = "/" → (gap ++ r).head? ≠ some '/') :
    ∃ fs, Scans (o.sign.toList ++ gap) fs r' ∧
      ∀ offset, Grammar.SpellsOperator o (tokensFrom offset fs) := by
  obtain ⟨gs, hgs, hnone⟩ := hgap.scans hright.isGap
  have hone : ∀ o : Operator, o.sign ∈ signs → o.sign.toList.head? ≠ some '>' →
      (o.sign = "/" → (gap ++ r).head? ≠ some '/') →
        ∃ fs, Scans (o.sign.toList ++ gap) fs r' ∧
          ∀ offset, Grammar.SpellsOperator o (tokensFrom offset fs) := by
    intro o hsign hgreater hslash
    obtain ⟨d, tail, rfl, -, hgluing, hd⟩ := hright.first
    have hafter : ∀ c ∈ (gap ++ d :: tail).head?, c ∉ gluing := by
      cases gap with
      | nil =>
        intro c hc
        obtain rfl := Option.some.inj hc
        exact hgluing
      | cons c gap =>
        intro c hc
        exact (Blank.apart (hgap.head? c hc)).right.right.right.right
    have hslash' : o.sign = "/" → (gap ++ d :: tail).head? ≠ some '/' := by
      intro ho
      cases gap with
      | nil => exact fun heq => hd (Option.some.inj heq)
      | cons c gap => exact hslash ho
    have hdot : o.sign = "." → ∀ c ∈ (gap ++ d :: tail).head?, c.isDigit = false := by
      intro ho
      cases o
      all_goals exact absurd ho (by decide)
    refine ⟨_, (scans_sign hsign hafter hslash' hdot).append hgs, fun offset => ?_⟩
    rw [tokensFrom_append, hnone, List.append_nil]
    exact .mark rfl hgreater
  have hgreater : ∀ after, Scans ['>'] [⟨.token (.token ">"), ['>']⟩] after :=
    scans_bracket (show ">" ∈ brackets by decide)
  cases o
  case rightShift =>
    refine ⟨_, ((hgreater _).append (hgreater _)).append hgs, fun offset => ?_⟩
    rw [tokensFrom_append, hnone, List.append_nil]
    exact .rightShift rfl rfl rfl
  case unsignedRightShift =>
    refine ⟨_, (((hgreater _).append (hgreater _)).append (hgreater _)).append hgs, fun offset => ?_⟩
    rw [tokensFrom_append, hnone, List.append_nil]
    exact .unsignedRightShift rfl rfl rfl rfl rfl
  all_goals exact hone _ (by decide) (by decide) hslash

end Marks

theorem scans_word {c : Char} (h : SpellsIdentifier w) (hc : isIdentifierPart c = false)
    (tail : List Char) : Scans w [⟨.token .identifier, w⟩] (c :: tail) := by
  refine .single ?_ (stepInCode_word h ?_)
  · obtain ⟨d, v, rfl, -⟩ := h
    exact List.cons_ne_nil _ _
  · intro d hd
    obtain rfl := Option.some.inj hd
    exact hc

-- No word goes on the mark in front of it.
theorem scans_sign_word (h : word ∈ signs) (hslash : word ≠ "/") (hw : SpellsIdentifier w)
    (after : List Char) :
    Scans word.toList [⟨.token (.token word), word.toList⟩] (w ++ after) := by
  obtain ⟨d, v, rfl, hd, -⟩ := hw
  refine scans_sign h ?_ (absurd · hslash) fun _ c hc => ?_
  · intro c hc hmem
    obtain rfl := Option.some.inj hc
    rw [(apart_of_mem_gluing hmem).left] at hd
    cases hd
  · obtain rfl := Option.some.inj hc
    refine Bool.eq_false_iff.mpr fun hdigit => ?_
    rw [isIdentifierStart_of_isDigit hdigit] at hd
    cases hd

-- A word that is an identifier and no keyword.
structure Nameable (word : String) : Prop where
  isWord : SpellsIdentifier word.toList
  isName : isName word = true

section Calls

variable (hobject : Nameable object) (hmethod : Nameable method)

/-- What the beginning of a call is divided into. -/
def openingFound (object method : String) : List Found :=
  [⟨.token .identifier, object.toList⟩, ⟨.token (.token "."), ['.']⟩,
    ⟨.token .identifier, method.toList⟩, ⟨.token (.token "("), ['(']⟩]

include hobject hmethod

theorem scans_opening (after : List Char) :
    Scans (object ++ "." ++ method ++ "(").toList (openingFound object method) after := by
  have hdot : Scans ['.'] [⟨.token (.token "."), ['.']⟩] (method.toList ++ '(' :: after) :=
    scans_sign_word (show "." ∈ signs by decide) (by decide) hmethod.isWord _
  have hback := (scans_word hmethod.isWord (by decide +kernel) after).append
    (scans_parenthesis after)
  have hfront :=
    (scans_word hobject.isWord (by decide +kernel) (method.toList ++ '(' :: after)).append hdot
  have hwhole := Scans.append
    (show Scans _ _ ((method.toList ++ ['(']) ++ after) by simpa using hfront) hback
  simpa [openingFound] using hwhole

-- A call without arguments is read as one, whatever follows it.
theorem scans_call (after : List Char) :
    ∃ fs, Scans (object ++ "." ++ method ++ "()").toList fs after ∧
      ∀ offset, Grammar.Spells [] (tokensFrom offset fs) (.call object method) := by
  have h := (scans_opening hobject hmethod (')' :: after)).append (scans_closing after)
  refine ⟨_, by simpa using h, fun offset => ?_⟩
  simp only [openingFound, List.cons_append, List.nil_append, tokensFrom_token, tokensFrom_nil,
    String.ofList_toList]
  exact .call ⟨rfl, hobject.isName⟩ rfl ⟨rfl, hmethod.isName⟩ rfl rfl

end Calls

end ClassSplit.Java
