import ClassSplit.Proofs.Signature.Canonical

/-!
Spellings in common. A signature that was written canonically and read back has a spelling in
common with a signature whose types close their brackets in turn only if the two have the same
parameter types, up to brackets and dots. Main statements: `bareForm_eq_of_spells` and
`agrees_iff_bareForm_eq`.
-/

namespace ClassSplit

open Text

namespace Signature

open ParamType

variable {depth : Int} {c : Char} {cs xs ys left : List Char} {ps : List ParamType}
  {us vs : List String}

-- Behind the name of a type, where the type is found to stop, a list of types goes on with marks
-- only, up to the next comma.
theorem Listed.exists_rest {own : Int} {tail : List Char} (h : Listed own (xs ++ tail))
    (hle : own ≤ depth) (hclosing : Closing depth xs)
    (hstops : ∀ c rest, tail = c :: rest → isTypeMark c = false ∨ dots.isPrefixOf tail = true) :
    ∃ marks, IsMarks marks ∧
      (tail = marks ∨ ∃ rest, tail = marks ++ ',' :: rest ∧ Listed 0 rest) := by
  generalize htext : xs ++ tail = text at h
  induction h generalizing xs depth with
  | @last own base marks spanned isMarks =>
    have hclosed : angleDepth own xs ≤ 0 := hclosing.closed ▸ angleDepth_mono hle xs
    obtain ⟨as, rfl, rfl⟩ | ⟨bs, rfl, rfl⟩ := List.append_eq_append_iff.mp htext
    · have has := isMarks_of_stops hclosed (isSpanned_append_right spanned) hstops
      exact ⟨as ++ marks, has.append isMarks, .inl rfl⟩
    · obtain rfl := hclosing.eq_nil fun c hc => isMarks.isMark c (List.mem_append_left _ hc)
      exact ⟨tail, isMarks, .inl rfl⟩
  | @next own base marks rest spanned isMarks listed ih =>
    have hclosed : angleDepth own xs ≤ 0 := hclosing.closed ▸ angleDepth_mono hle xs
    rw [List.append_assoc] at htext
    obtain ⟨as, rfl, rfl⟩ | ⟨bs, rfl, hbs⟩ := List.append_eq_append_iff.mp htext
    · have has := isMarks_of_stops hclosed (isSpanned_append_right spanned) hstops
      exact ⟨as ++ marks, has.append isMarks, .inr ⟨rest, by rw [List.append_assoc], listed⟩⟩
    · obtain ⟨as, rfl, has⟩ | ⟨as, rfl, rfl⟩ := List.append_eq_append_iff.mp hbs
      · cases as with
        | nil =>
          rw [List.nil_append] at has
          obtain rfl : marks = [] := by
            rw [List.append_nil] at hclosing
            exact hclosing.eq_nil isMarks.isMark
          exact ⟨[], isMarks_nil, .inr ⟨rest, has.symm, listed⟩⟩
        | cons c as =>
          obtain ⟨rfl, hrest⟩ := List.cons.inj has
          have hnext : base ++ (marks ++ ',' :: as) = (base ++ marks ++ [',']) ++ as := by simp
          rw [hnext] at hclosing
          exact ih (hclosing.nonneg _ _ rfl) hclosing.append_right hrest.symm
      · obtain rfl := hclosing.eq_nil fun c hc => isMarks.isMark c (List.mem_append_left _ hc)
        exact ⟨as, isMarks, .inr ⟨rest, rfl, listed⟩⟩

theorem openAfter_intercalate {parts : List (List Char)}
    (h : ∀ part ∈ parts, openAfter [] part = some []) :
    openAfter [] ([','].intercalate parts) = some [] := by
  induction parts with
  | nil => rfl
  | cons part parts ih =>
    have hpart := h part List.mem_cons_self
    cases parts with
    | nil => rwa [List.intercalate_singleton]
    | cons next parts =>
      have hrest := ih fun p hp => h p (List.mem_cons_of_mem _ hp)
      rw [List.intercalate_cons_cons, openAfter_append, openAfter_append, hpart]
      exact hrest

-- What is behind the first of several parts.
def behind (parts : List (List Char)) : List Char :=
  match parts with
  | [] => []
  | parts => ',' :: [','].intercalate parts

theorem intercalate_cons (part : List Char) (parts : List (List Char)) :
    [','].intercalate (part :: parts) = part ++ behind parts := by
  cases parts with
  | nil => simp [behind]
  | cons next parts => rw [List.intercalate_cons_cons, List.append_assoc]; rfl

theorem splitTopLevel_behind (h : isWhole 0 xs = true) (parts : List (List Char)) :
    ∃ others, splitTopLevel 0 (xs ++ behind parts) = xs :: others := by
  have happend : splitTopLevel 0 (xs ++ behind parts) = _ := splitTopLevel_append h
  cases parts with
  | nil => exact ⟨_, by simpa [behind, splitTopLevel] using happend⟩
  | cons next parts => exact ⟨_, by simpa [behind, splitTopLevel_comma] using happend⟩

-- The first parts of two equal texts are equal, and so is what is behind them.
theorem intercalate_cons_inj {part other : List Char} {parts others : List (List Char)}
    (hpart : isWhole 0 part = true) (hother : isWhole 0 other = true)
    (h : [','].intercalate (part :: parts) = [','].intercalate (other :: others)) :
    part = other ∧ (parts = [] ↔ others = []) ∧
      [','].intercalate parts = [','].intercalate others := by
  rw [intercalate_cons, intercalate_cons] at h
  obtain ⟨_, hsplit⟩ := splitTopLevel_behind hpart parts
  obtain ⟨_, hsplit'⟩ := splitTopLevel_behind hother others
  rw [h, hsplit'] at hsplit
  obtain rfl : other = part := (List.cons.inj hsplit).left
  rw [List.append_cancel_left_eq] at h
  cases parts with
  | nil =>
    cases others with
    | nil => exact ⟨rfl, Iff.rfl, rfl⟩
    | cons next others => cases h
  | cons next parts =>
    cases others with
    | nil => cases h
    | cons next' others => exact ⟨rfl, by simp, (List.cons.inj h).right⟩

-- Marks that begin with a dot are the three dots.
theorem eq_dots_of_writes {p : ParamType} {text : String} {marks rest : List Char}
    (h : p.Writes text) (htext : text.toList = p.base.toList ++ marks) (hrest : marks = '.' :: rest) :
    marks = dots := by
  obtain ⟨n, tail, htext', htail⟩ := h.exists_toList
  rw [htext, List.append_cancel_left_eq] at htext'
  subst htext'
  cases n with
  | zero =>
    rw [brackets_zero, String.toList_empty, List.nil_append] at hrest ⊢
    refine htail.resolve_left ?_
    rintro rfl
    cases hrest
  | succ n =>
    rw [toList_brackets_succ] at hrest
    cases hrest

-- The base of a type can be told from the marks behind it.
theorem base_eq_of_writes {p q : ParamType} {text : String} {dims : List Char} (hp : p.Writes text)
    (hq : q.Writes text) (hspanned : isSpanned 0 (p.base.toList ++ dims) = true) (hnested : q.Nested) :
    p.base = q.base := by
  obtain ⟨marks, htext, hmarks⟩ := hp.exists_isMarks
  obtain ⟨marks', htext', hmarks'⟩ := hq.exists_isMarks
  have hclosing := closing_of_nested hnested
  obtain ⟨as, hbase, rfl⟩ | ⟨bs, hbase, hbs⟩ :=
    List.append_eq_append_iff.mp (htext.symm.trans htext')
  · rw [hbase] at hclosing
    rw [hclosing.eq_nil fun c hc => hmarks.isMark c (List.mem_append_left _ hc), List.append_nil]
      at hbase
    exact String.toList_inj.mp hbase.symm
  cases bs with
  | nil => exact String.toList_inj.mp (by rw [hbase, List.append_nil])
  | cons c bs =>
    exfalso
    rw [hbase, List.append_assoc] at hspanned
    have hrest := isSpanned_append_right hspanned
    rw [hclosing.closed, List.cons_append, isSpanned_cons] at hrest
    have htype : isTypeMark c = true ∧ dots.isPrefixOf (c :: (bs ++ dims)) = false := by
      simpa using (Bool.and_eq_true_iff.mp hrest).left
    have hc : c = '.' := by
      obtain rfl | rfl | rfl := isMark_iff.mp (hmarks'.isMark c (hbs ▸ List.mem_cons_self))
      · exact absurd htype.left (by decide)
      · exact absurd htype.left (by decide)
      · rfl
    subst hc
    have hdots := eq_dots_of_writes hq htext' hbs
    rw [hdots] at hbs
    cases marks with
    | nil =>
      rw [List.append_nil] at hbs
      have hprefix : dots.isPrefixOf ('.' :: (bs ++ dims)) = true := by
        rw [← List.cons_append, ← hbs]
        exact List.isPrefixOf_iff_prefix.mpr (List.prefix_append _ _)
      rw [htype.right] at hprefix
      cases hprefix
    | cons d marks =>
      have hd : d = '.' := by
        have hmem : d ∈ dots := hbs ▸ List.mem_append_right _ List.mem_cons_self
        simpa [dots] using hmem
      have hlength := congrArg List.length hbs
      rw [eq_dots_of_writes hp htext (by rw [hd])] at hlength
      simp [dots] at hlength

-- A part of a canonical text is read as it is written.
theorem exists_reads_part {part tail : List Char} (hlisted : Listed 0 (part ++ tail))
    (htight : isTight false part = true) :
    ∃ dims rest, ReadsBase part (paramOfText part).base.toList dims rest := by
  obtain ⟨dims, rest, hreads⟩ := exists_readsBase htight
  have hbase : (paramOfText part).base.toList = baseOf part := by
    rw [base_paramOfText, hlisted.dropParamModifiers_eq, trim_of_isTight htight,
      collapseType_of_isTight hreads.tight]
  exact ⟨dims, rest, hbase ▸ hreads⟩

-- A type that is read from a part of a text closes its brackets unless it is the last one: otherwise
-- it would go on behind the comma.
theorem eq_nil_of_reads {part base dims rest : List Char} {parts : List (List Char)}
    (hreads : ReadsBase part base dims rest) (hfirst : FirstPart 0 cs part parts)
    (hopened : openAfter [] base = some left) (hlast : parts = [] → left = []) : left = [] := by
  by_contra hne
  have hangles := inAngles_nil.openAfter (isSpanned_append_left hreads.spanned) hopened
  have hopened' : openAfter [] (base ++ dims) = some left := by
    rw [openAfter_append, hopened]
    exact hreads.isDims.openAfter
  have hrest : rest = [] := by
    cases hrest : rest with
    | nil => rfl
    | cons c tail =>
      have hle := (hreads.stops c tail hrest).left
      have hpos := hangles.count_pos hne
      rw [angleDepth_of_openAfter hopened'] at hle
      simp at hle
      omega
  obtain ⟨-, hparts⟩ | ⟨tail, -, hdepth, -⟩ := hfirst.rest
  · exact hne (hlast hparts)
  · rw [hreads.split, hrest, List.append_nil, bracketDepth_of_openAfter hopened'] at hdepth
    exact hne (by simpa using hdepth)

theorem dims_eq_nil {p : ParamType} {dims : List Char} (hp : p.Nested)
    (hspanned : isSpanned 0 (p.base.toList ++ dims) = true) (hdims : IsDims dims) : dims = [] := by
  have hrest := isSpanned_append_right hspanned
  rw [(closing_of_nested hp).closed] at hrest
  cases dims with
  | nil => rfl
  | cons c dims =>
    have htype : isTypeMark c = true := by
      have hfirst := (Bool.and_eq_true_iff.mp hrest).left
      simp only [Int.lt_irrefl, decide_false, Bool.false_or, Bool.and_eq_true] at hfirst
      exact hfirst.left
    obtain hblank | rfl | rfl := hdims.chars c List.mem_cons_self
    · simp only [isTypeMark, Bool.or_eq_true, decide_eq_true_eq, beq_iff_eq] at htype
      obtain (((rfl | rfl) | hword) | rfl) | rfl := htype
      · exact absurd hblank (by decide)
      · exact absurd hblank (by decide)
      · rw [isBlank_eq_false_of_isWordChar hword] at hblank
        cases hblank
      · exact absurd hblank (by decide)
      · exact absurd hblank (by decide)
    · exact absurd htype (by decide)
    · exact absurd htype (by decide)

-- The types that are read from a canonical text and the types of another signature, with the same
-- text written for both.
structure Written (cs : List Char) (ps : List ParamType) (xs ys : List String) : Prop where
  listed : Listed 0 cs
  tight : isTight false cs = true
  nested : ∀ p ∈ ps, p.Nested
  writesRead : List.Forall₂ (fun x p => ParamType.Writes p x) xs (readParams cs)
  writes : List.Forall₂ (fun y p => ParamType.Writes p y) ys ps
  eq : [','].intercalate (xs.map String.toList) = [','].intercalate (ys.map String.toList)

theorem readParams_comma (cs : List Char) : readParams (',' :: cs) = readParams cs := by
  rw [readParams, splitTopLevel_comma]
  rfl

theorem Written.of_comma (h : Written (',' :: cs) ps us vs) : Written cs ps us vs where
  listed := by
    obtain ⟨hpos | htype, -⟩ | hmark | ⟨-, hrest⟩ := h.listed.cons_cases
    · exact absurd hpos (by decide)
    · exact absurd htype (by decide)
    · exact absurd hmark (by decide)
    · exact hrest
  tight := (isTight_of_comma (show isTight false ([] ++ ',' :: cs) = true from h.tight)).right
  nested := h.nested
  writesRead := readParams_comma cs ▸ h.writesRead
  writes := h.writes
  eq := h.eq

theorem readParams_of_splitTopLevel {part : List Char} {parts : List (List Char)}
    (h : splitTopLevel 0 cs = part :: parts) (hpart : allBlank part = false) :
    readParams cs = paramOfText part :: (parts.filter (!allBlank ·)).map paramOfText := by
  rw [readParams, h, List.filter_cons_of_pos (by simp [hpart]), List.map_cons]

theorem Written.readParams_eq {part : List Char} {parts : List (List Char)}
    (h : Written cs ps us vs) (hsplit : splitTopLevel 0 cs = part :: parts) (hpart : part ≠ []) :
    readParams cs = paramOfText part :: (parts.filter (!allBlank ·)).map paramOfText := by
  refine readParams_of_splitTopLevel hsplit ?_
  cases part with
  | nil => exact absurd rfl hpart
  | cons c part =>
    have hlisted := h.listed
    obtain ⟨rfl, -⟩ | ⟨rest, rfl, -, -⟩ := (firstPart_of_splitTopLevel hsplit).rest
    · simp [allBlank, hlisted.head.left]
    · simp [allBlank, hlisted.head.left]

theorem Written.whole (h : Written cs ps us vs) :
    ∀ v ∈ vs, v.toList ≠ [] ∧ isWhole 0 v.toList = true :=
  (whole_and_bare (fun p hp => (h.nested p hp).isTypeName) h.writes).left

theorem Written.eq_nil_of_nil (h : Written [] ps us vs) : ps = [] := by
  have hus : us = [] := List.forall₂_nil_right_iff.mp h.writesRead
  have hvs : vs.map String.toList = [] := by
    refine eq_nil_of_intercalate_eq_nil ?_ ?_
    · simpa using fun v hv => (h.whole v hv).left
    · rw [← h.eq, hus]
      rfl
  have hwrites := h.writes
  rw [List.map_eq_nil_iff.mp hvs] at hwrites
  exact List.forall₂_nil_left_iff.mp hwrites

theorem Written.openAfter_eq (h : Written cs ps us vs) :
    openAfter [] ([','].intercalate (us.map String.toList)) = some [] := by
  rw [h.eq]
  refine openAfter_intercalate ?_
  intro part hpart
  obtain ⟨v, hv, rfl⟩ := List.mem_map.mp hpart
  obtain ⟨p, hp, hwrites⟩ : ∃ p ∈ ps, p.Writes v := by
    obtain ⟨i, hi, rfl⟩ := List.getElem_of_mem hv
    have hlength := h.writes.length_eq
    exact ⟨_, List.getElem_mem (hlength ▸ hi), h.writes.get hi (hlength ▸ hi)⟩
  obtain ⟨marks, htext, hmarks⟩ := hwrites.exists_isMarks
  rw [htext, openAfter_append, (h.nested p hp).closed]
  exact hmarks.openAfter

-- The first type that is read is the first type of the other signature, and only marks are between
-- it and the next comma.
theorem Written.first {p : ParamType} {u v : String} {part : List Char} {parts : List (List Char)}
    (h : Written cs (p :: ps) (u :: us) (v :: vs)) (hsplit : splitTopLevel 0 cs = part :: parts)
    (hpart : part ≠ []) :
    u = v ∧ (us = [] ↔ vs = []) ∧
      [','].intercalate (us.map String.toList) = [','].intercalate (vs.map String.toList) ∧
        (paramOfText part).base = p.base ∧
          ∃ marks, IsMarks marks ∧ (cs = p.base.toList ++ marks ∨
            ∃ rest, cs = p.base.toList ++ marks ++ ',' :: rest ∧ Listed 0 rest) := by
  have hfirst := firstPart_of_splitTopLevel hsplit
  obtain ⟨tail, hcs, htail⟩ : ∃ tail, cs = part ++ tail ∧ (tail = [] ∨ ∃ rest, tail = ',' :: rest) := by
    obtain ⟨rfl, -⟩ | ⟨rest, rfl, -, -⟩ := hfirst.rest
    · exact ⟨[], by simp, .inl rfl⟩
    · exact ⟨',' :: rest, rfl, .inr ⟨rest, rfl⟩⟩
  have htight : isTight false part = true := by
    have htight := h.tight
    obtain rfl | ⟨rest, rfl⟩ := htail
    · rwa [hcs, List.append_nil] at htight
    · exact (isTight_of_comma (hcs ▸ htight)).left
  have hlisted : Listed 0 (part ++ tail) := hcs ▸ h.listed
  obtain ⟨dims, rest, hreads⟩ := exists_reads_part hlisted htight
  have hread := h.readParams_eq hsplit hpart
  have hwritesRead := h.writesRead
  rw [hread, List.forall₂_cons] at hwritesRead
  obtain ⟨hu, hus⟩ := hwritesRead
  obtain ⟨hv, -⟩ := List.forall₂_cons.mp h.writes
  obtain ⟨marks, htext, hmarks⟩ := hu.exists_isMarks
  -- the brackets of the type are closed
  have hopen := h.openAfter_eq
  rw [List.map_cons, intercalate_cons, htext, List.append_assoc, openAfter_append] at hopen
  obtain ⟨left, hleft, hopen⟩ := Option.bind_eq_some_iff.mp hopen
  have hnil : left = [] := by
    refine eq_nil_of_reads hreads hfirst hleft ?_
    rintro rfl
    obtain rfl : us = [] := List.forall₂_nil_right_iff.mp hus
    rw [openAfter_append, hmarks.openAfter] at hopen
    exact Option.some.inj hopen
  rw [hnil] at hleft
  have hwhole : isWhole 0 u.toList = true := by
    rw [htext]
    refine isWhole_append (isWhole_of_openAfter hleft ?_) hmarks.whole
    intro xs ys heq
    exact hfirst.inside xs (ys ++ dims ++ rest) (by rw [hreads.split, heq]; simp)
  have heq := h.eq
  rw [List.map_cons, List.map_cons] at heq
  obtain ⟨huv, hnilIff, hrest⟩ := intercalate_cons_inj hwhole (h.whole v List.mem_cons_self).right heq
  obtain rfl : u = v := String.toList_inj.mp huv
  rw [List.map_eq_nil_iff, List.map_eq_nil_iff] at hnilIff
  have hnested := h.nested p List.mem_cons_self
  have hbase := base_eq_of_writes hu hv hreads.spanned hnested
  refine ⟨rfl, hnilIff, hrest, hbase, ?_⟩
  -- what is behind it
  rw [hbase] at hreads
  obtain rfl := dims_eq_nil hnested hreads.spanned hreads.isDims
  have hsplitText : cs = p.base.toList ++ (rest ++ tail) := by
    rw [hcs, hreads.split]
    simp
  have hlisted' := h.listed
  rw [hsplitText] at hlisted'
  have hstops : ∀ c after, rest ++ tail = c :: after →
      isTypeMark c = false ∨ dots.isPrefixOf (rest ++ tail) = true := by
    intro c after hafter
    cases rest with
    | nil =>
      obtain rfl | ⟨next, rfl⟩ := htail
      · cases hafter
      · obtain ⟨rfl, -⟩ := List.cons.inj hafter
        exact .inl (by decide)
    | cons d rest =>
      obtain ⟨rfl, -⟩ := List.cons.inj hafter
      exact (hreads.stops d rest rfl).right.imp_right fun hdots =>
        isPrefixOf_append_of_isPrefixOf hdots tail
  obtain ⟨marks', hmarks', hend⟩ :=
    hlisted'.exists_rest (Int.le_refl 0) (closing_of_nested hnested) hstops
  refine ⟨marks', hmarks', ?_⟩
  obtain hend | ⟨rest', hend, hlisted''⟩ := hend
  · exact .inl (by rw [hsplitText, hend])
  · exact .inr ⟨rest', by rw [hsplitText, hend, List.append_assoc], hlisted''⟩

-- What is left behind the first type is again written for both signatures.
theorem Written.step {p : ParamType} {part : List Char} {parts : List (List Char)}
    (h : Written cs (p :: ps) us vs) (hsplit : splitTopLevel 0 cs = part :: parts)
    (hpart : part ≠ []) :
    (paramOfText part).base = p.base ∧
      (readParams cs = [paramOfText part] ∧ ps = [] ∨
        ∃ rest us vs, rest.length < cs.length ∧ readParams cs = paramOfText part :: readParams rest ∧
          ps ≠ [] ∧ Written rest ps us vs) := by
  obtain ⟨v, vs, -, hvs, rfl⟩ := List.forall₂_cons_right_iff.mp h.writes
  have hread := h.readParams_eq hsplit hpart
  obtain ⟨u, us, -, hus, rfl⟩ := List.forall₂_cons_right_iff.mp (hread ▸ h.writesRead)
  obtain ⟨rfl, hnil, hrest, hbase, marks, hmarks, hend⟩ := h.first hsplit hpart
  refine ⟨hbase, ?_⟩
  have hwhole : isWhole 0 (p.base.toList ++ marks) = true :=
    isWhole_append (isWhole_of_isTypeName (h.nested p List.mem_cons_self).isTypeName) hmarks.whole
  have hdone (hps : ps = []) : readParams cs = [paramOfText part] ∧ ps = [] := by
    subst hps
    obtain rfl := List.forall₂_nil_right_iff.mp hvs
    rw [hnil.mpr rfl] at hus
    rw [hread, List.forall₂_nil_left_iff.mp hus]
    exact ⟨rfl, rfl⟩
  obtain hcs | ⟨rest, hcs, hlisted⟩ := hend
  · have hsplit' : splitTopLevel 0 (p.base.toList ++ marks ++ []) = _ := splitTopLevel_append hwhole
    rw [List.append_nil, ← hcs, hsplit] at hsplit'
    obtain rfl : parts = [] := (List.cons.inj hsplit').right
    rw [List.filter_nil, List.map_nil] at hread hus
    obtain rfl := List.forall₂_nil_right_iff.mp hus
    rw [hnil.mp rfl] at hvs
    exact .inl (hdone (List.forall₂_nil_left_iff.mp hvs))
  · by_cases hps : ps = []
    · exact .inl (hdone hps)
    have hsplit' : splitTopLevel 0 (p.base.toList ++ marks ++ ',' :: rest) = _ :=
      splitTopLevel_append hwhole
    rw [← hcs, hsplit, splitTopLevel_comma, List.tail_cons] at hsplit'
    obtain rfl : parts = splitTopLevel 0 rest := (List.cons.inj hsplit').right
    refine .inr ⟨rest, us, vs, ?_, hread, hps, ?_⟩
    · rw [hcs, List.length_append, List.length_cons]
      omega
    · exact ⟨hlisted, (isTight_of_comma (hcs ▸ h.tight)).right,
        fun q hq => h.nested q (List.mem_cons_of_mem _ hq), hus, hvs, hrest⟩

theorem map_base_readParams (h : Written cs ps us vs) (hne : ps ≠ []) :
    (readParams cs).map (·.base) = ps.map (·.base) := by
  induction hlength : cs.length using Nat.strong_induction_on generalizing cs ps us vs with
  | _ length ih =>
    obtain ⟨part, parts, hsplit⟩ := List.exists_cons_of_ne_nil (splitTopLevel_ne_nil 0 cs)
    by_cases hpart : part = []
    case pos =>
      subst hpart
      obtain ⟨rfl, rfl⟩ | ⟨rest, rfl, -, -⟩ := (firstPart_of_splitTopLevel hsplit).rest
      · exact absurd h.eq_nil_of_nil hne
      · rw [List.nil_append] at h hlength ⊢
        rw [readParams_comma]
        exact ih rest.length (by rw [← hlength, List.length_cons]; omega) h.of_comma hne rfl
    case neg =>
      obtain ⟨p, ps, rfl⟩ := List.exists_cons_of_ne_nil hne
      obtain ⟨hbase, ⟨hread, rfl⟩ | ⟨rest, us, vs, hrest, hread, hne, h⟩⟩ := h.step hsplit hpart
      · rw [hread, List.map_singleton, List.map_singleton, hbase]
      · rw [hread, List.map_cons, List.map_cons, hbase, ih rest.length (hlength ▸ hrest) h hne rfl]

-- What is written for two signatures can be told from their text up to the first parenthesis.
theorem render_inj {s t : Signature} {us vs : List String}
    (hs : ∀ c ∈ s.name.toList, isPlain c = true) (ht : ∀ c ∈ t.name.toList, isPlain c = true)
    (h : s.render us = t.render vs) :
    s.name = t.name ∧
      [','].intercalate (us.map String.toList) = [','].intercalate (vs.map String.toList) := by
  have htake {r : Signature} (hr : ∀ c ∈ r.name.toList, isPlain c = true) (ws : List String) :
      (r.render ws).toList.takeWhile (· != '(') = r.name.toList := by
    rw [toList_render, List.takeWhile_append_of_pos fun c hc =>
      bne_iff_ne.mpr (isPlain_iff.mp (hr c hc)).right.left]
    simp
  have hname : s.name.toList = t.name.toList := by rw [← htake hs us, h, htake ht vs]
  have hchars := congrArg String.toList h
  rw [toList_render, toList_render, hname, List.append_cancel_left_eq, List.cons.injEq,
    List.append_cancel_right_eq] at hchars
  exact ⟨String.toList_inj.mp hname, hchars.right⟩

-- Where nothing is written for types, nothing is written for them without their marks.
theorem intercalate_base_of_eq_nil {us : List String}
    (h : List.Forall₂ (fun u p => ParamType.Writes p u) us ps)
    (hnil : [','].intercalate (us.map String.toList) = []) :
    ",".intercalate (ps.map (·.base)) = "" := by
  cases h with
  | nil => rfl
  | @cons u p us ps hu hus =>
    rw [List.map_cons, intercalate_cons] at hnil
    obtain ⟨htext, hbehind⟩ := List.append_eq_nil_iff.mp hnil
    cases hus with
    | cons => cases hbehind
    | nil =>
      obtain ⟨marks, hmarks, -⟩ := hu.exists_isMarks
      rw [htext] at hmarks
      have hbase : p.base = "" :=
        String.toList_inj.mp (List.append_eq_nil_iff.mp hmarks.symm).left
      simp [hbase]

-- A signature that has been written canonically and read back has a spelling in common with one
-- whose brackets are closed in turn only if the two are the same without brackets and dots.
theorem bareForm_eq_of_spells {s t : Signature} {f : String} (hs : s.Tidy) (ht : t.Nested)
    (hsf : (ofString s.canonicalForm).Spells f) (htf : t.Spells f) :
    (ofString s.canonicalForm).bareForm = t.bareForm := by
  rw [hs.ofString_canonicalForm] at hsf ⊢
  obtain ⟨us, rfl, hus⟩ := hsf
  obtain ⟨vs, hrender, hvs⟩ := htf
  obtain ⟨hname, hchars⟩ := render_inj hs.name ht.name hrender
  have hwritten : Written s.paramTexts t.params us vs :=
    ⟨hs.listed, hs.isTight_paramTexts, ht.params, hus, hvs, hchars⟩
  by_cases hparams : t.params = []
  case neg =>
    refine bareForm_congr ?_
    rw [erasure, erasure, map_base_readParams hwritten hparams]
    exact congrArg₂ Prod.mk hname rfl
  case pos =>
    rw [hparams] at hvs
    obtain rfl := List.forall₂_nil_right_iff.mp hvs
    have hbare := intercalate_base_of_eq_nil hus hchars
    simp only [bareForm, render, hparams, hbare]
    rw [hname]
    rfl

-- For these two it is the same to agree and to be the same without brackets and dots.
theorem agrees_iff_bareForm_eq {s t : Signature} (hs : s.Tidy) (ht : t.Nested) :
    (ofString s.canonicalForm).agrees t = true ↔
      (ofString s.canonicalForm).bareForm = t.bareForm := by
  rw [agrees_iff_exists]
  constructor
  case mp =>
    rintro (hcanonical | ⟨f, hsf, htf⟩)
    · have htf := t.spells_canonicalForm
      rw [← hcanonical] at htf
      exact bareForm_eq_of_spells hs ht (spells_canonicalForm _) htf
    · exact bareForm_eq_of_spells hs ht (spells_of_mem_forms hsf) (spells_of_mem_forms htf)
  case mpr =>
    intro h
    exact .inr (exists_common_form h)

end Signature

end ClassSplit
