import ClassSplit.Proofs.Java.Lexeme

/-!
Number literals and what follows them. Which prefixes of a text have a pattern does not depend on the
rest of the text, so that a number literal is found again in front of other text as long as no
longer one begins there. Main statement: `Number.scan?_append`.
-/

namespace ClassSplit.Java

namespace Pattern

variable {p q : Pattern} {cs r r' w : List Char}

-- What is left is the end of the text, and whether a word is taken depends on the word alone.
class Uniform (p : Pattern) : Prop where
  split : ∀ {cs r : List Char}, r ∈ p cs → ∃ w, cs = w ++ r
  move : ∀ {w r : List Char}, r ∈ p (w ++ r) → ∀ r', r' ∈ p (w ++ r')

-- The words that are taken have a property.
class Words (P : List Char → Prop) (p : Pattern) : Prop where
  word : ∀ {w r : List Char}, r ∈ p (w ++ r) → P w

section Uniform

instance {test : Char → Bool} : Uniform (one test) where
  split {cs r} h := by
    cases cs with
    | nil => simp [one] at h
    | cons c cs =>
      cases hc : test c with
      | false => simp [one, hc] at h
      | true => exact ⟨[c], by simpa [one, hc, eq_comm] using h⟩
  move {w r} h r' := by
    cases w with
    | nil =>
      cases r with
      | nil => simp [one] at h
      | cons c r => cases hc : test c <;> simp [one, hc] at h
    | cons c w =>
      cases hc : test c with
      | false => simp [one, hc] at h
      | true =>
        have hw : w = [] := by simpa [one, hc] using h
        simp [one, hc, hw]

instance [hp : Uniform p] [hq : Uniform q] : Uniform (seq p q) where
  split h := by
    obtain ⟨mid, hmid, hr⟩ := List.mem_flatMap.mp h
    obtain ⟨w, rfl⟩ := hp.split hmid
    obtain ⟨v, rfl⟩ := hq.split hr
    exact ⟨w ++ v, by simp⟩
  move {w r} h r' := by
    obtain ⟨mid, hmid, hr⟩ := List.mem_flatMap.mp h
    obtain ⟨u, hu⟩ := hp.split hmid
    obtain ⟨v, rfl⟩ := hq.split hr
    rw [← List.append_assoc] at hu
    obtain rfl := List.append_cancel_right hu
    rw [List.append_assoc] at hmid ⊢
    exact List.mem_flatMap.mpr ⟨v ++ r', hp.move hmid _, hq.move hr r'⟩

instance [hp : Uniform p] [hq : Uniform q] : Uniform (alt p q) where
  split h := (List.mem_append.mp h).elim hp.split hq.split
  move h r' := List.mem_append.mpr ((List.mem_append.mp h).imp (hp.move · r') (hq.move · r'))

instance [hp : Uniform p] : Uniform (opt p) where
  split h := (List.mem_append.mp h).elim hp.split fun h => ⟨[], by simp [List.mem_singleton.mp h]⟩
  move {w r} h r' := by
    refine List.mem_append.mpr ((List.mem_append.mp h).imp (hp.move · r') fun h => ?_)
    have hw : w = [] := by simpa using (List.mem_singleton.mp h).symm
    simp [hw]

instance {digit : Char → Bool} : Uniform (some1 digit) where
  split {cs r} h := by
    induction cs with
    | nil => simp [some1] at h
    | cons c cs ih =>
      rw [some1] at h
      split at h
      case isTrue =>
        obtain h | h := List.mem_append.mp h
        · obtain ⟨w, rfl⟩ := ih h
          exact ⟨c :: w, rfl⟩
        · exact ⟨[c], by simp [List.mem_singleton.mp h]⟩
      case isFalse => simp at h
  move {w r} h r' := by
    induction w with
    | nil => exact absurd (length_lt_of_mem_some1 h) (by simp)
    | cons c w ih =>
      rw [List.cons_append, some1] at h ⊢
      split at h
      case isTrue hc =>
        rw [if_pos hc]
        refine List.mem_append.mpr ((List.mem_append.mp h).imp ih fun h => ?_)
        have hw : w = [] := by simpa using (List.mem_singleton.mp h).symm
        simp [hw]
      case isFalse => simp at h

variable {digit : Char → Bool} {separator : Pattern}

theorem split_go [hseparator : Uniform separator] {n : Nat}
    (h : r ∈ groups.go digit separator n cs) : ∃ w, cs = w ++ r := by
  induction n generalizing cs with
  | zero => simp [groups.go] at h
  | succ n ih =>
    have hdigits : Uniform (some1 digit) := inferInstance
    obtain h | h := List.mem_append.mp h
    · obtain ⟨mid, hmid, hrest⟩ := List.mem_flatMap.mp h
      obtain ⟨mid', hmid', hgo⟩ := List.mem_flatMap.mp hrest
      obtain ⟨w, rfl⟩ := hdigits.split hmid
      obtain ⟨w', rfl⟩ := hseparator.split hmid'
      obtain ⟨w'', rfl⟩ := ih hgo
      exact ⟨w ++ (w' ++ w''), by simp⟩
    · exact hdigits.split h

-- A word of groups is a first group and, if it goes on, a separator and the word of the others.
theorem exists_of_mem_go [hseparator : Uniform separator] {n : Nat}
    (h : r ∈ groups.go digit separator (n + 1) (w ++ r)) : ∃ u mid, w = u ++ mid ∧
      mid ++ r ∈ some1 digit (u ++ (mid ++ r)) ∧
        (mid = [] ∨ ∃ v v', mid = v ++ v' ∧ v' ++ r ∈ separator (v ++ (v' ++ r)) ∧
          r ∈ groups.go digit separator n (v' ++ r)) := by
  have hdigits : Uniform (some1 digit) := inferInstance
  obtain h | h := List.mem_append.mp h
  · obtain ⟨mid, hmid, hrest⟩ := List.mem_flatMap.mp h
    obtain ⟨mid', hmid', hgo⟩ := List.mem_flatMap.mp hrest
    obtain ⟨v', rfl⟩ := split_go hgo
    obtain ⟨v, rfl⟩ := hseparator.split hmid'
    obtain ⟨u, hu⟩ := hdigits.split hmid
    have hw : w = u ++ (v ++ v') := List.append_cancel_right (by simpa using hu)
    rw [hu] at hmid
    exact ⟨u, v ++ v', hw, by simpa using hmid, .inr ⟨v, v', rfl, hmid', hgo⟩⟩
  · exact ⟨w, [], by simp, by simpa using h, .inl rfl⟩

-- Every group has a digit, so that as many turns as there are characters are enough.
theorem move_go [hseparator : Uniform separator] {n m : Nat}
    (h : r ∈ groups.go digit separator n (w ++ r)) (hm : w.length ≤ m) (r' : List Char) :
    r' ∈ groups.go digit separator m (w ++ r') := by
  have hdigits : Uniform (some1 digit) := inferInstance
  induction n generalizing w m with
  | zero => simp [groups.go] at h
  | succ n ih =>
    obtain ⟨u, mid, rfl, hmid, hrest⟩ := exists_of_mem_go h
    have hlength := length_lt_of_mem_some1 hmid
    simp only [List.length_append] at hlength hm
    obtain ⟨m, rfl⟩ : ∃ m', m = m' + 1 := ⟨m - 1, by omega⟩
    have hfirst := hdigits.move hmid (mid ++ r')
    rw [List.append_assoc]
    refine List.mem_append.mpr ?_
    obtain rfl | ⟨v, v', rfl, hseparated, hgo⟩ := hrest
    · exact .inr hfirst
    · refine .inl (List.mem_flatMap.mpr ⟨_, hfirst, List.mem_flatMap.mpr ⟨v' ++ r', ?_, ?_⟩⟩)
      · rw [List.append_assoc]
        exact hseparator.move hseparated _
      · refine ih hgo ?_
        simp only [List.length_append] at hm
        omega

instance [hseparator : Uniform separator] : Uniform (groups digit separator) where
  split := split_go
  move h r' := move_go h (by simp) r'

end Uniform

section Longest

-- The first of the shortest among some texts.
def Shortest (rs : List (List Char)) : Option (List Char) → Prop
  | none => rs = []
  | some x => x ∈ rs ∧ ∀ y ∈ rs, x.length ≤ y.length

theorem shortest_longest? (p : Pattern) (cs : List Char) : Shortest (p cs) (p.longest? cs) := by
  have hfold : ∀ (rs seen : List (List Char)) (best : Option (List Char)), Shortest seen best →
      Shortest (seen ++ rs) (rs.foldl (fun best r =>
        match best with
        | none => some r
        | some b => if r.length < b.length then some r else some b) best) := by
    intro rs
    induction rs with
    | nil => simp
    | cons r rs ih =>
      intro seen best hbest
      rw [List.foldl_cons, ← List.singleton_append, ← List.append_assoc]
      refine ih _ _ ?_
      cases best with
      | none =>
        have hseen : seen = [] := hbest
        simp [hseen, Shortest]
      | some b =>
        obtain ⟨hmem, hall⟩ := hbest
        by_cases hlt : r.length < b.length
        case pos =>
          simp only [if_pos hlt]
          refine ⟨by simp, fun y hy => ?_⟩
          obtain hy | hy := List.mem_append.mp hy
          · have := hall y hy
            omega
          · exact Nat.le_of_eq (congrArg List.length (List.mem_singleton.mp hy).symm)
        case neg =>
          simp only [if_neg hlt]
          refine ⟨List.mem_append_left _ hmem, fun y hy => ?_⟩
          obtain hy | hy := List.mem_append.mp hy
          · exact hall y hy
          · rw [List.mem_singleton.mp hy]
            omega
  exact hfold (p cs) [] none rfl

-- Where no word is taken that is longer, the same words are taken in front of other text.
theorem longest?_append [hp : Uniform p] (h : ∀ x ∈ p (w ++ r), r.length ≤ x.length)
    (h' : ∀ x ∈ p (w ++ r'), r'.length ≤ x.length) :
    p.longest? (w ++ r') =
      (p.longest? (w ++ r)).map fun x => x.take (x.length - r.length) ++ r' := by
  have hmove : ∀ r r' : List Char, (∀ x ∈ p (w ++ r), r.length ≤ x.length) →
      ∀ x ∈ p (w ++ r), ∃ u v, w = u ++ v ∧ x = v ++ r ∧ v ++ r' ∈ p (w ++ r') := by
    intro r r' hle x hx
    obtain ⟨u, hu⟩ := hp.split hx
    have hlength := hle x hx
    obtain ⟨v, rfl⟩ : ∃ v, x = v ++ r := by
      have hsuffix : r <:+ x :=
        List.suffix_of_suffix_length_le ⟨w, rfl⟩ ⟨u, hu.symm⟩ hlength
      exact ⟨_, hsuffix.choose_spec.symm⟩
    rw [← List.append_assoc] at hu
    obtain rfl := List.append_cancel_right hu
    refine ⟨u, v, rfl, rfl, ?_⟩
    rw [List.append_assoc] at hx ⊢
    exact hp.move hx _
  have hshortest := shortest_longest? p (w ++ r)
  have hshortest' := shortest_longest? p (w ++ r')
  cases hlongest : p.longest? (w ++ r) with
  | none =>
    rw [hlongest] at hshortest
    cases hlongest' : p.longest? (w ++ r') with
    | none => rfl
    | some y =>
      rw [hlongest'] at hshortest'
      obtain ⟨u, v, -, -, hv⟩ := hmove r' r h' y hshortest'.left
      rw [show p (w ++ r) = [] from hshortest] at hv
      cases hv
  | some x =>
    rw [hlongest] at hshortest
    obtain ⟨u, v, rfl, rfl, hv⟩ := hmove r r' h x hshortest.left
    cases hlongest' : p.longest? (u ++ v ++ r') with
    | none =>
      rw [hlongest'] at hshortest'
      rw [show p (u ++ v ++ r') = [] from hshortest'] at hv
      cases hv
    | some y =>
      rw [hlongest'] at hshortest'
      obtain ⟨u', v', hw, rfl, hv'⟩ := hmove r' r h' y hshortest'.left
      have hle := hshortest'.right _ hv
      have hle' := hshortest.right _ hv'
      simp only [List.length_append] at hle hle'
      have heq : v' = v := by
        refine (List.append_inj' hw.symm ?_).right
        omega
      simp [heq]

end Longest

end Pattern

namespace Number

open Pattern

variable {kind : Kind} {r r' w : List Char}

section Scan

/-- The better of the number found so far and the longest one of another form. -/
def better (cs : List Char) (best : Option (Kind × List Char)) (form : Kind × Pattern) :
    Option (Kind × List Char) :=
  match best, form.2.longest? cs with
  | best, none => best
  | none, some rest => some (form.1, rest)
  | some (k, r), some rest => if rest.length < r.length then some (form.1, rest) else some (k, r)

theorem better_of_none {cs : List Char} {form : Kind × Pattern} (h : form.2.longest? cs = none)
    (best : Option (Kind × List Char)) : better cs best form = best := by
  unfold better
  cases best <;> simp only [h]

theorem better_first {cs x : List Char} {form : Kind × Pattern} (h : form.2.longest? cs = some x) :
    better cs none form = some (form.1, x) := by
  simp only [better, h]

theorem better_of_some {cs x : List Char} {form : Kind × Pattern}
    (h : form.2.longest? cs = some x) (b : Kind × List Char) :
    better cs (some b) form = if x.length < b.2.length then some (form.1, x) else some b := by
  simp only [better, h]

theorem scan?_eq (cs : List Char) : scan? cs = forms.foldl (better cs) none := rfl

-- A number that has been found once is only given up for a longer one.
theorem exists_foldl_better {cs : List Char} (fs : List (Kind × Pattern)) (k : Kind)
    (x : List Char) : ∃ k' x', fs.foldl (better cs) (some (k, x)) = some (k', x') ∧
      x'.length ≤ x.length := by
  induction fs generalizing k x with
  | nil => exact ⟨k, x, rfl, Nat.le_refl _⟩
  | cons form fs ih =>
    rw [List.foldl_cons]
    cases hlongest : form.2.longest? cs with
    | none =>
      rw [better_of_none hlongest]
      exact ih k x
    | some y =>
      rw [better_of_some hlongest]
      split
      case isTrue hlt =>
        obtain ⟨k', x', hfold, hle⟩ := ih form.1 y
        exact ⟨k', x', hfold, Nat.le_of_lt (Nat.lt_of_le_of_lt hle hlt)⟩
      case isFalse => exact ih k x

theorem length_le_of_foldl {cs : List Char} {fs : List (Kind × Pattern)}
    {best : Option (Kind × List Char)} (h : fs.foldl (better cs) best = some (kind, r))
    {form : Kind × Pattern} (hform : form ∈ fs) {x : List Char}
    (hx : form.2.longest? cs = some x) : r.length ≤ x.length := by
  induction fs generalizing best with
  | nil => cases hform
  | cons first fs ih =>
    rw [List.foldl_cons] at h
    obtain rfl | hmem := List.mem_cons.mp hform
    case inr => exact ih h hmem
    have hbetter : ∃ k y, better cs best form = some (k, y) ∧ y.length ≤ x.length := by
      cases best with
      | none => exact ⟨_, _, better_first hx, Nat.le_refl _⟩
      | some b =>
        rw [better_of_some hx]
        by_cases hlt : x.length < b.2.length
        · exact ⟨_, _, if_pos hlt, Nat.le_refl _⟩
        · exact ⟨b.1, b.2, if_neg hlt, by omega⟩
    obtain ⟨k, y, hbest, hle⟩ := hbetter
    rw [hbest] at h
    obtain ⟨k', x', hfold, hle'⟩ := @exists_foldl_better cs fs k y
    rw [hfold] at h
    cases h
    omega

-- The forms find in front of other text what they find here, as long as none finds more.
theorem foldl_better_append {fs : List (Kind × Pattern)} (huniform : ∀ f ∈ fs, Uniform f.2)
    (h : ∀ f ∈ fs, ∀ x ∈ f.2 (w ++ r), r.length ≤ x.length)
    (h' : ∀ f ∈ fs, ∀ x ∈ f.2 (w ++ r'), r'.length ≤ x.length)
    {best : Option (Kind × List Char)} (hbest : ∀ b ∈ best, r.length ≤ b.2.length) :
    let move (found : Kind × List Char) := (found.1, found.2.take (found.2.length - r.length) ++ r')
    fs.foldl (better (w ++ r')) (best.map move) = (fs.foldl (better (w ++ r)) best).map move := by
  intro move
  induction fs generalizing best with
  | nil => rfl
  | cons form fs ih =>
    have := huniform form List.mem_cons_self
    have hlongest := longest?_append (h form List.mem_cons_self) (h' form List.mem_cons_self)
    have hmem : ∀ x, form.2.longest? (w ++ r) = some x → r.length ≤ x.length := fun x hx =>
      h form List.mem_cons_self x (mem_of_longest? hx)
    rw [List.foldl_cons, List.foldl_cons]
    have hstep : better (w ++ r') (best.map move) form = (better (w ++ r) best form).map move ∧
        ∀ b ∈ better (w ++ r) best form, r.length ≤ b.2.length := by
      cases hx : form.2.longest? (w ++ r) with
      | none =>
        rw [hx, Option.map_none] at hlongest
        rw [better_of_none hx, better_of_none hlongest]
        exact ⟨rfl, hbest⟩
      | some x =>
        rw [hx, Option.map_some] at hlongest
        have hle := hmem x hx
        cases best with
        | none =>
          rw [better_first hx, Option.map_none, better_first hlongest]
          refine ⟨rfl, fun b hb => ?_⟩
          cases hb
          exact hle
        | some b =>
          have hleb := hbest b rfl
          rw [better_of_some hx, Option.map_some, better_of_some hlongest]
          simp only [move, List.length_append, List.length_take]
          by_cases hlt : x.length < b.2.length
          case pos =>
            rw [if_pos (by omega), if_pos hlt]
            refine ⟨rfl, fun c hc => ?_⟩
            cases hc
            exact hle
          case neg =>
            rw [if_neg (by omega), if_neg hlt]
            refine ⟨rfl, fun c hc => ?_⟩
            cases hc
            exact hleb
    rw [hstep.left]
    exact ih (fun f hf => huniform f (List.mem_cons_of_mem _ hf))
      (fun f hf => h f (List.mem_cons_of_mem _ hf)) (fun f hf => h' f (List.mem_cons_of_mem _ hf))
      hstep.right

end Scan

section Words

/-- The characters of a number, signs aside. -/
def isPart (c : Char) : Bool := c.isAlphanum || c == '_' || c == '.'

def isSign (c : Char) : Bool := c == '+' || c == '-'

def Unsigned (w : List Char) : Prop := ∀ c ∈ w, isPart c = true

-- A sign stands in front of a digit, and there is at most one.
def Signed (w : List Char) : Prop :=
  Unsigned w ∨ ∃ front s d back, w = front ++ s :: d :: back ∧ Unsigned front ∧
    isSign s = true ∧ d.isDigit = true ∧ Unsigned back

theorem Unsigned.append {v w : List Char} (hv : Unsigned v) (hw : Unsigned w) :
    Unsigned (v ++ w) := fun c hc => (List.mem_append.mp hc).elim (hv c) (hw c)

def BeginsWithDigit (w : List Char) : Prop := ∃ d v, w = d :: v ∧ d.isDigit = true

variable {p q : Pattern} {P : List Char → Prop} {test : Char → Bool} {v : List Char}

theorem words_seq {Q R : List Char → Prop} [hu : Uniform p] [hu' : Uniform q] (hp : Words P p)
    (hq : Words Q q) (h : ∀ v w, P v → Q w → R (v ++ w)) : Words R (seq p q) where
  word {w r} hw := by
    obtain ⟨mid, hmid, hrest⟩ := List.mem_flatMap.mp hw
    obtain ⟨u, heq⟩ := hu.split hmid
    obtain ⟨v, rfl⟩ := hu'.split hrest
    rw [← List.append_assoc] at heq
    obtain rfl := List.append_cancel_right heq
    rw [List.append_assoc] at hmid
    exact h u v (hp.word hmid) (hq.word hrest)

theorem words_one (h : ∀ c, test c = true → P [c]) : Words P (one test) where
  word {w r} hr := by
    cases w with
    | nil =>
      cases r with
      | nil => simp [one] at hr
      | cons c r => cases hc : test c <;> simp [one, hc] at hr
    | cons c w =>
      cases hc : test c with
      | false => simp [one, hc] at hr
      | true =>
        have hw : w = [] := by simpa [one, hc] using hr
        exact hw ▸ h c hc

theorem words_some1 (h : ∀ c w, test c = true → (∀ d ∈ w, test d = true) → P (c :: w)) :
    Words P (some1 test) where
  word {w r} hr := by
    have hall : w ≠ [] ∧ ∀ d ∈ w, test d = true := by
      induction w with
      | nil => exact absurd (length_lt_of_mem_some1 hr) (by simp)
      | cons c w ih =>
        rw [List.cons_append, some1] at hr
        split at hr
        case isTrue hc =>
          obtain hr | hr := List.mem_append.mp hr
          · simpa [hc] using (ih hr).right
          · have hw : w = [] := by simpa using (List.mem_singleton.mp hr).symm
            simp [hw, hc]
        case isFalse => simp at hr
    cases w with
    | nil => exact absurd rfl hall.left
    | cons c w =>
      exact h c w (hall.right c List.mem_cons_self) fun d hd => hall.right d (List.mem_cons_of_mem c hd)

instance [hp : Words P p] [hq : Words P q] : Words P (alt p q) where
  word h := (List.mem_append.mp h).elim hp.word hq.word

instance [hp : Words Unsigned p] [hq : Words Unsigned q] [Uniform p] [Uniform q] :
    Words Unsigned (seq p q) :=
  words_seq hp hq fun _ _ hv hw => hv.append hw

theorem words_opt [hp : Words P p] (h : P []) : Words P (opt p) where
  word {w r} hr := by
    obtain hr | hr := List.mem_append.mp hr
    · exact hp.word hr
    · have hw : w = [] := by simpa using (List.mem_singleton.mp hr).symm
      exact hw ▸ h

instance [Words Unsigned p] : Words Unsigned (opt p) := words_opt (by simp [Unsigned])

theorem unsigned_one (h : ∀ c, test c = true → isPart c = true) : Words Unsigned (one test) :=
  words_one fun c hc d hd => by rw [List.mem_singleton.mp hd]; exact h c hc

theorem unsigned_some1 (h : ∀ c, test c = true → isPart c = true) :
    Words Unsigned (some1 test) :=
  words_some1 fun c w hc hw d hd => by
    obtain rfl | hd := List.mem_cons.mp hd
    · exact h d hc
    · exact h d (hw d hd)

theorem unsigned_groups {separator : Pattern} [hu : Uniform separator]
    (hseparator : Words Unsigned separator) (h : ∀ c, test c = true → isPart c = true) :
    Words Unsigned (groups test separator) where
  word {w r} hw := by
    have hdigits : Words Unsigned (some1 test) := unsigned_some1 h
    have hgo : ∀ n w, r ∈ groups.go test separator n (w ++ r) → Unsigned w := by
      intro n
      induction n with
      | zero => simp [groups.go]
      | succ n ih =>
        intro w hw
        obtain ⟨u, mid, rfl, hmid, hrest⟩ := exists_of_mem_go hw
        refine (hdigits.word hmid).append ?_
        obtain rfl | ⟨v, v', rfl, hseparated, hgo⟩ := hrest
        · simp [Unsigned]
        · exact (hseparator.word hseparated).append (ih v' hgo)
    exact hgo _ w hw

instance [hp : Words Unsigned p] : Words Signed p where
  word h := .inl (hp.word h)

theorem Signed.append_left (hv : Unsigned v) (hw : Signed w) : Signed (v ++ w) := by
  obtain hw | ⟨front, s, d, back, rfl, hfront, hs, hd, hback⟩ := hw
  · exact .inl (hv.append hw)
  · exact .inr ⟨v ++ front, s, d, back, by simp, hv.append hfront, hs, hd, hback⟩

theorem Signed.append_right (hv : Signed v) (hw : Unsigned w) : Signed (v ++ w) := by
  obtain hv | ⟨front, s, d, back, rfl, hfront, hs, hd, hback⟩ := hv
  · exact .inl (hv.append hw)
  · exact .inr ⟨front, s, d, back ++ w, by simp, hfront, hs, hd, hback.append hw⟩

instance [hp : Words Unsigned p] [hq : Words Signed q] [Uniform p] [Uniform q] :
    Words Signed (seq p q) :=
  words_seq hp hq fun _ _ => Signed.append_left

instance [hp : Words Signed p] [hq : Words Unsigned q] [Uniform p] [Uniform q] :
    Words Signed (seq p q) :=
  words_seq hp hq fun _ _ => Signed.append_right

instance [Words Signed p] : Words Signed (opt p) := words_opt (.inl (by simp [Unsigned]))

theorem BeginsWithDigit.append (hv : BeginsWithDigit v) (w : List Char) :
    BeginsWithDigit (v ++ w) := by
  obtain ⟨d, v, rfl, hd⟩ := hv
  exact ⟨d, v ++ w, rfl, hd⟩

-- What follows the first part is free.
theorem beginsWithDigit_seq [Uniform p] [hu : Uniform q] (hp : Words BeginsWithDigit p) :
    Words BeginsWithDigit (seq p q) :=
  words_seq (Q := fun _ => True) hp ⟨fun _ => trivial⟩ fun _ w hv _ => hv.append w

theorem beginsWithDigit_some1 (h : ∀ c, test c = true → c.isDigit = true) :
    Words BeginsWithDigit (some1 test) :=
  words_some1 fun c w hc _ => ⟨c, w, rfl, h c hc⟩

theorem beginsWithDigit_groups {separator : Pattern} [hu : Uniform separator]
    (h : ∀ c, test c = true → c.isDigit = true) :
    Words BeginsWithDigit (groups test separator) where
  word {w r} hw := by
    have hdigits : Words BeginsWithDigit (some1 test) := beginsWithDigit_some1 h
    rw [groups] at hw
    cases hn : (w ++ r).length with
    | zero =>
      rw [hn] at hw
      simp [groups.go] at hw
    | succ n =>
      rw [hn] at hw
      obtain ⟨u, mid, rfl, hmid, -⟩ := exists_of_mem_go hw
      exact (hdigits.word hmid).append mid

end Words

section Forms

variable {p : Pattern} {c : Char} {text : String}

instance : Uniform (char c) := by unfold char; infer_instance
instance : Uniform (anyOf text) := by unfold anyOf; infer_instance
instance : Uniform underscore := by unfold underscore; infer_instance
instance : Uniform digits := by unfold digits; infer_instance
instance : Uniform decimalDigits := by unfold decimalDigits; infer_instance
instance : Uniform hexDigits := by unfold hexDigits; infer_instance
instance : Uniform long := by unfold long; infer_instance
instance : Uniform sign := by unfold sign; infer_instance
instance : Uniform floatMark := by unfold floatMark; infer_instance
instance : Uniform exponent := by unfold exponent; infer_instance
instance : Uniform hexMark := by unfold hexMark; infer_instance

theorem uniform_of_mem_forms {form : Kind × Pattern} (h : form ∈ forms) : Uniform form.2 := by
  obtain ⟨kind, p⟩ := form
  simp only [forms, List.mem_cons, Prod.mk.injEq, List.not_mem_nil, or_false] at h
  obtain ⟨-, rfl⟩ | ⟨-, rfl⟩ | ⟨-, rfl⟩ | ⟨-, rfl⟩ | ⟨-, rfl⟩ | ⟨-, rfl⟩ := h
  · unfold decimalInteger; infer_instance
  · unfold hexInteger; infer_instance
  · unfold octalInteger; infer_instance
  · unfold binaryInteger; infer_instance
  · unfold decimalFloat; infer_instance
  · unfold hexFloat; infer_instance

theorem isPart_of_isDigit (h : c.isDigit = true) : isPart c = true := by
  simp [isPart, Char.isAlphanum, h]

theorem isPart_of_isHex (h : isHex c = true) : isPart c = true := by
  rw [isPart, Char.isAlphanum]
  delta Char.isAlpha Char.isUpper Char.isLower
  simp only [isHex, Char.isDigit, Bool.or_eq_true, Bool.and_eq_true, decide_eq_true_eq, ge_iff_le,
    Char.le_def, UInt32.le_iff_toNat_le, beq_iff_eq] at h ⊢
  simp only [Char.reduceVal, UInt32.reduceToNat] at h ⊢
  omega

theorem isDigit_of_isOctal (h : isOctal c = true) : c.isDigit = true := by
  simp only [isOctal, Char.isDigit, Bool.and_eq_true, decide_eq_true_eq, ge_iff_le, Char.le_def,
    UInt32.le_iff_toNat_le] at h ⊢
  simp only [Char.reduceVal, UInt32.reduceToNat] at h ⊢
  omega

theorem isDigit_of_isBinary (h : isBinary c = true) : c.isDigit = true := by
  simp only [isBinary, Bool.or_eq_true, beq_iff_eq] at h
  obtain rfl | rfl := h
  · decide
  · decide

theorem unsigned_char (h : isPart c = true) : Words Unsigned (char c) :=
  unsigned_one fun d hd => by rwa [beq_iff_eq.mp hd]

theorem unsigned_anyOf (h : text.toList.all isPart = true) : Words Unsigned (anyOf text) :=
  unsigned_one fun d hd => List.all_eq_true.mp h d (by simpa using hd)

instance : Words Unsigned underscore := unsigned_char (by decide)
instance : Words Unsigned (char '.') := unsigned_char (by decide)
instance : Words Unsigned (char '0') := unsigned_char (by decide)
instance : Words Unsigned (some1 (· == '_')) :=
  unsigned_some1 fun c hc => by rw [beq_iff_eq.mp hc]; decide
instance : Words Unsigned (anyOf "lL") := unsigned_anyOf (by decide)
instance : Words Unsigned (anyOf "fFdD") := unsigned_anyOf (by decide)
instance : Words Unsigned (anyOf "eE") := unsigned_anyOf (by decide)
instance : Words Unsigned (anyOf "xX") := unsigned_anyOf (by decide)
instance : Words Unsigned (anyOf "oO") := unsigned_anyOf (by decide)
instance : Words Unsigned (anyOf "bB") := unsigned_anyOf (by decide)
instance : Words Unsigned (anyOf "eEpP") := unsigned_anyOf (by decide)

instance : Words Unsigned (one fun c => c.isDigit && c != '0') :=
  unsigned_one fun _ h => isPart_of_isDigit (Bool.and_eq_true_iff.mp h).left

instance : Words Unsigned (groups Char.isDigit (some1 (· == '_'))) :=
  unsigned_groups inferInstance fun _ => isPart_of_isDigit
instance : Words Unsigned decimalDigits := unsigned_groups inferInstance fun _ => isPart_of_isDigit
instance : Words Unsigned hexDigits := unsigned_groups inferInstance fun _ => isPart_of_isHex
instance : Words Unsigned (groups isOctal underscore) :=
  unsigned_groups inferInstance fun _ h => isPart_of_isDigit (isDigit_of_isOctal h)
instance : Words Unsigned (groups isBinary underscore) :=
  unsigned_groups inferInstance fun _ h => isPart_of_isDigit (isDigit_of_isBinary h)
instance : Words Unsigned digits := by unfold digits; infer_instance
instance : Words Unsigned long := by unfold long; infer_instance
instance : Words Unsigned floatMark := by unfold floatMark; infer_instance
instance : Words Unsigned hexMark := by unfold hexMark; infer_instance
instance : Words Unsigned decimalInteger := by unfold decimalInteger; infer_instance
instance : Words Unsigned hexInteger := by unfold hexInteger; infer_instance
instance : Words Unsigned octalInteger := by unfold octalInteger; infer_instance
instance : Words Unsigned binaryInteger := by unfold binaryInteger; infer_instance

instance : Words BeginsWithDigit (char '0') :=
  words_one fun c hc => ⟨c, [], rfl, by rw [beq_iff_eq.mp hc]; decide⟩
instance : Words BeginsWithDigit (one fun c => c.isDigit && c != '0') :=
  words_one fun c hc => ⟨c, [], rfl, (Bool.and_eq_true_iff.mp hc).left⟩
instance : Words BeginsWithDigit decimalDigits := beginsWithDigit_groups fun _ h => h
instance : Words BeginsWithDigit digits := by
  have hseq : Words BeginsWithDigit (seq (one fun c => c.isDigit && c != '0')
      (opt (seq (opt underscore) (groups Char.isDigit (some1 (· == '_')))))) :=
    beginsWithDigit_seq inferInstance
  unfold digits; infer_instance
instance : Words BeginsWithDigit decimalInteger := beginsWithDigit_seq inferInstance
instance : Words BeginsWithDigit hexInteger :=
  beginsWithDigit_seq (p := hexMark) (beginsWithDigit_seq inferInstance)
instance : Words BeginsWithDigit octalInteger := beginsWithDigit_seq inferInstance
instance : Words BeginsWithDigit binaryInteger := beginsWithDigit_seq inferInstance

theorem signed_sign [Uniform p] [hp : Words Unsigned p] [hdigit : Words BeginsWithDigit p] :
    Words Signed (seq sign p) := by
  have hone : Words (fun u => u = [] ∨ ∃ s, u = [s] ∧ isSign s = true) (anyOf "-+") := by
    refine words_one fun c hc => .inr ⟨c, rfl, ?_⟩
    obtain rfl | rfl : c = '-' ∨ c = '+' := by simpa using hc
    · rfl
    · rfl
  have hsign : Words (fun u => u = [] ∨ ∃ s, u = [s] ∧ isSign s = true) sign := words_opt (.inl rfl)
  have hdigits : Words (fun v => Unsigned v ∧ BeginsWithDigit v) p :=
    ⟨fun h => ⟨hp.word h, hdigit.word h⟩⟩
  refine words_seq hsign hdigits ?_
  rintro u v (rfl | ⟨s, rfl, hs⟩) ⟨hv, d, v, rfl, hd⟩
  · exact .inl hv
  · exact .inr ⟨[], s, d, v, rfl, by simp [Unsigned], hs, hd,
      fun c hc => hv c (List.mem_cons_of_mem d hc)⟩

instance : Words Signed (seq sign decimalDigits) := signed_sign
instance : Words Signed exponent := by unfold exponent; infer_instance

-- A sign that begins the rest of a number, and the digits behind it.
theorem signed_sign_seq [Uniform p] [Uniform q] [Words Unsigned p] [Words Unsigned q]
    [Words BeginsWithDigit p] : Words Signed (seq sign (seq p q)) := by
  have hdigit : Words BeginsWithDigit (seq p q) := beginsWithDigit_seq inferInstance
  exact signed_sign

theorem signed_of_mem_forms {form : Kind × Pattern} (h : form ∈ forms) : Words Signed form.2 := by
  have hdecimal : Words Signed (seq sign (seq decimalDigits (opt floatMark))) := signed_sign_seq
  have hhex : Words Signed (seq sign (seq digits (opt floatMark))) := signed_sign_seq
  obtain ⟨kind, p⟩ := form
  simp only [forms, List.mem_cons, Prod.mk.injEq, List.not_mem_nil, or_false] at h
  obtain ⟨-, rfl⟩ | ⟨-, rfl⟩ | ⟨-, rfl⟩ | ⟨-, rfl⟩ | ⟨-, rfl⟩ | ⟨-, rfl⟩ := h
  · infer_instance
  · infer_instance
  · infer_instance
  · infer_instance
  · unfold decimalFloat; infer_instance
  · unfold hexFloat; infer_instance

end Forms

section Following

-- How a text goes on behind a number that another text begins with, too, so that no longer number
-- begins there: with nothing of a number, with a sign that no digit follows, or with a sign and
-- digits that stand in both texts.
inductive Follows : List Char → List Char → Prop
  | stop {r r' : List Char} (h : ∀ c ∈ r'.head?, isPart c = false ∧ isSign c = false) : Follows r r'
  | sign {r tail : List Char} {s : Char} (hs : isSign s = true)
    (h : ∀ c ∈ tail.head?, c.isDigit = false) : Follows r (s :: tail)
  | shared {s : Char} {digits tail tail' : List Char} (hs : isSign s = true)
    (hdigits : Unsigned digits) (h : ∀ c ∈ tail'.head?, isPart c = false) :
    Follows (s :: (digits ++ tail)) (s :: (digits ++ tail'))

theorem isPart_of_isSign {s : Char} (h : isSign s = true) : isPart s = false := by
  simp only [isSign, Bool.or_eq_true, beq_iff_eq] at h
  obtain rfl | rfl := h
  · decide
  · decide

theorem Signed.isPart_or_isSign {c : Char} (h : Signed w) (hc : c ∈ w) :
    isPart c = true ∨ isSign c = true := by
  obtain h | ⟨front, s, d, back, rfl, hfront, hs, hd, hback⟩ := h
  · exact .inl (h c hc)
  · simp only [List.mem_append, List.mem_cons] at hc
    obtain hc | rfl | rfl | hc := hc
    · exact .inl (hfront c hc)
    · exact .inr hs
    · exact .inl (isPart_of_isDigit hd)
    · exact .inl (hback c hc)

-- Behind a sign in a number a digit stands, and no other sign.
theorem Signed.of_append {v : List Char} {s : Char} (h : Signed (w ++ s :: v))
    (hs : isSign s = true) : ∃ d v', v = d :: v' ∧ d.isDigit = true ∧ Unsigned v := by
  have hpart := isPart_of_isSign hs
  obtain h | ⟨front, s', d, back, heq, hfront, hs', hd, hback⟩ := h
  · rw [h s (by simp)] at hpart
    cases hpart
  · have hdigits : Unsigned (d :: back) := by
      intro c hc
      obtain rfl | hc := List.mem_cons.mp hc
      · exact isPart_of_isDigit hd
      · exact hback c hc
    have hfrontNot : s ∉ front := fun hmem => by simp [hfront s hmem] at hpart
    have hbackNot : s ∉ d :: back := fun hmem => by simp [hdigits s hmem] at hpart
    have hv : v = d :: back := by
      obtain ⟨u, rfl, hu⟩ | ⟨u, rfl, hu⟩ := List.append_eq_append_iff.mp heq
      · cases u with
        | nil => exact (List.cons.inj hu).right
        | cons c u =>
          obtain ⟨rfl, -⟩ := List.cons.inj hu
          exact absurd (by simp) hfrontNot
      · cases u with
        | nil => exact (List.cons.inj hu.symm).right
        | cons c u =>
          obtain ⟨-, hu⟩ := List.cons.inj hu
          exact absurd (by simp [hu]) hbackNot
    exact ⟨d, back, hv, hd, hv ▸ hdigits⟩

theorem length_le_of_scan? {cs : List Char} (h : scan? cs = some (kind, r)) {form : Kind × Pattern}
    (hform : form ∈ forms) {x : List Char} (hx : x ∈ form.2 cs) : r.length ≤ x.length := by
  have hshortest := shortest_longest? form.2 cs
  cases hlongest : form.2.longest? cs with
  | none =>
    rw [hlongest] at hshortest
    rw [show form.2 cs = [] from hshortest] at hx
    cases hx
  | some y =>
    rw [hlongest] at hshortest
    exact Nat.le_trans (length_le_of_foldl h hform hlongest) (hshortest.right x hx)

-- No form finds more of a number in front of a text that follows it.
theorem length_le_of_follows (h : scan? (w ++ r) = some (kind, r)) (hr : Follows r r')
    {form : Kind × Pattern} (hform : form ∈ forms) {x : List Char} (hx : x ∈ form.2 (w ++ r')) :
    r'.length ≤ x.length := by
  have huniform := uniform_of_mem_forms hform
  have hsigned := signed_of_mem_forms hform
  refine Nat.le_of_not_lt fun hlt => ?_
  obtain ⟨u, hu⟩ := huniform.split hx
  obtain ⟨v, rfl⟩ : ∃ v, r' = v ++ x := by
    have hsuffix : x <:+ r' :=
      List.suffix_of_suffix_length_le ⟨u, hu.symm⟩ ⟨w, rfl⟩ (Nat.le_of_lt hlt)
    exact ⟨_, hsuffix.choose_spec.symm⟩
  cases v with
  | nil => exact Nat.lt_irrefl _ hlt
  | cons c v =>
    rw [← List.append_assoc] at hx
    have hword := hsigned.word hx
    rw [List.cons_append] at hr
    generalize htail : v ++ x = tail at hr
    cases hr with
    | stop hstop =>
      obtain ⟨hpart, hsign⟩ := hstop c rfl
      obtain hc | hc := hword.isPart_or_isSign (c := c) (by simp)
      · rw [hpart] at hc
        cases hc
      · rw [hsign] at hc
        cases hc
    | sign hs hdigit =>
      obtain ⟨d, v, rfl, hd, -⟩ := hword.of_append hs
      subst htail
      rw [hdigit d rfl] at hd
      cases hd
    | @shared s digits rest rest' hs hdigits hstop =>
      -- What is found behind the sign lies in the digits, and is found in front of `r` as well.
      obtain ⟨-, -, -, -, hv⟩ := hword.of_append hs
      obtain ⟨z, rfl, rfl⟩ : ∃ z, digits = v ++ z ∧ x = z ++ rest' := by
        obtain ⟨z, hz, hx⟩ | ⟨z, hz, hrest⟩ := List.append_eq_append_iff.mp htail
        · exact ⟨z, hz, hx⟩
        · cases z with
          | nil => exact ⟨[], by simpa using hz.symm, by simpa using hrest.symm⟩
          | cons d z =>
            have hd := hstop d (by simp [hrest])
            rw [hv d (by simp [hz])] at hd
            cases hd
      have hmoved := huniform.move hx (z ++ rest)
      have hle := length_le_of_scan? h hform (x := z ++ rest) (by simpa using hmoved)
      simp only [List.length_append, List.length_cons] at hle
      omega

-- A number is found again in front of a text that follows it.
theorem scan?_append (h : scan? (w ++ r) = some (kind, r)) (hr : Follows r r') :
    scan? (w ++ r') = some (kind, r') := by
  have hnone : ∀ b ∈ (none : Option (Kind × List Char)), r.length ≤ b.2.length := nofun
  have hmove := foldl_better_append (fun f hf => uniform_of_mem_forms hf)
    (fun f hf x => length_le_of_scan? h hf) (fun f hf x => length_le_of_follows h hr hf) hnone
  rw [scan?_eq] at h
  rw [scan?_eq, show forms.foldl (better (w ++ r')) none = _ from hmove, h]
  simp

end Following

end Number

end ClassSplit.Java
