import Mathlib.Data.List.Induction
import MjFormatter.Policy.DeclAlign
import MjFormatter.Verified.TrimmedLines

/-! # Signs behind blanks

The two searches for a sign find it again when other blanks stand in front of it, and a carriage return at the end of a line
makes no difference to them. -/

namespace MjFormatter.Verified

open DeclarationAlignmentPolicy

/-! ## Patterns -/

/-- A pattern does not reach into a tail that begins with a symbol it does not have. -/
theorem prefix_append_iff {pat tail : Text} (text : Text) (clear : ∀ symbol ∈ tail.head?, symbol ∉ pat) :
    pat <+: text ++ tail ↔ pat <+: text := by
  constructor
  · intro starts
    obtain inside | longer := List.prefix_or_prefix_of_prefix starts (List.prefix_append text tail)
    · exact inside
    · obtain ⟨more, rfl⟩ := longer
      rw [List.prefix_append_right_inj] at starts
      cases more with
      | nil => exact (List.append_nil text).symm ▸ List.prefix_rfl
      | cons symbol more =>
        obtain ⟨behind, rfl⟩ := starts
        exact absurd (List.mem_append_right _ List.mem_cons_self) (clear symbol rfl)
  · intro starts
    exact starts.trans (List.prefix_append _ _)

/-- What stands from a sign on, and the blanks in front of it. -/
def signTail (gap rest : Text) : Text := gap ++ '=' :: rest

theorem signTail_head {gap : Text} (blank : Blank gap) (rest : Text) {symbol : Char} (first : symbol ∈ (signTail gap rest).head?) :
    isWhitespace symbol = true ∨ symbol = '=' := by
  cases gap with
  | nil => exact .inr (Option.some.inj first).symm
  | cons head gap => exact .inl (Option.some.inj first ▸ blank head List.mem_cons_self)

theorem trimStart_signTail {gap : Text} (blank : Blank gap) (rest : Text) : trimStart (signTail gap rest) = '=' :: rest := by
  rw [signTail, trimStart_blank_append blank]
  exact trimStart_cons_of_visible (by decide) rest

/-- The trimmed text begins with the pattern or not, whatever blanks stand in front of the sign. -/
theorem prefix_trimStart_signTail {pat content gap : Text} (rest : Text) (blank : Blank gap)
    (visible : ∀ symbol ∈ pat, isWhitespace symbol = false) (noSign : '=' ∉ pat) :
    pat <+: trimStart (content ++ signTail gap rest) ↔ pat <+: trimStart content := by
  have clear (behind : Text) (blankBehind : Blank behind) : ∀ symbol ∈ (signTail behind rest).head?, symbol ∉ pat := by
    intro symbol first member
    cases signTail_head blankBehind rest first with
    | inl white =>
      rw [visible symbol member] at white
      cases white
    | inr sign => exact noSign (sign ▸ member)
  by_cases shown : trimStart content = []
  · have allBlank : Blank content := List.dropWhile_eq_nil_iff.mp shown
    rw [shown, trimStart_blank_append allBlank, trimStart_signTail blank]
    exact prefix_append_iff [] (clear [] blank_nil)
  · rw [trimStart_append shown]
    exact prefix_append_iff _ (clear gap blank)

theorem isSkippedLine_signTail (content rest : Text) {gap : Text} (blank : Blank gap) :
    isSkippedLine (content ++ signTail gap rest) =
      ("//".toList.isPrefixOf (trimStart content) || "#".toList.isPrefixOf (trimStart content)) := by
  have slashes : "//".toList <+: trimStart (content ++ signTail gap rest) ↔ "//".toList <+: trimStart content :=
    prefix_trimStart_signTail rest blank (by decide) (by decide)
  have hash : "#".toList <+: trimStart (content ++ signTail gap rest) ↔ "#".toList <+: trimStart content :=
    prefix_trimStart_signTail rest blank (by decide) (by decide)
  rw [isSkippedLine, Bool.eq_iff_iff, Bool.or_eq_true, Bool.or_eq_true]
  simp only [List.isPrefixOf_iff_prefix, slashes, hash]

/-! ## The last place of a pattern -/

theorem rfind_eq_some {pat line : Text} {pos : Nat} (found : rfind pat line = some pos) :
    pos ≤ line.length ∧ pat <+: line.drop pos := by
  induction line generalizing pos with
  | nil =>
    rw [rfind] at found
    split at found
    · next empty =>
      obtain rfl := Option.some.inj found
      exact ⟨Nat.le_refl _, empty ▸ List.nil_prefix⟩
    · cases found
  | cons symbol line inductionHypothesis =>
    rw [rfind] at found
    split at found
    · next later =>
      obtain rfl := Option.some.inj found
      obtain ⟨bound, starts⟩ := inductionHypothesis later
      exact ⟨Nat.succ_le_succ bound, starts⟩
    · split at found
      · next starts =>
        obtain rfl := Option.some.inj found
        exact ⟨Nat.zero_le _, List.isPrefixOf_iff_prefix.mp starts⟩
      · cases found

/-- A clause: a sign, one blank, and a word. -/
structure IsClause (pat : Text) : Prop where
  spelled : ∃ word, word ≠ [] ∧ pat = '=' :: ' ' :: word ∧ ∀ symbol ∈ word, isWhitespace symbol = false ∧ symbol ≠ '='

theorem isClause_delete : IsClause "= delete".toList := ⟨"delete".toList, by decide, by decide, by decide⟩

theorem isClause_default : IsClause "= default".toList := ⟨"default".toList, by decide, by decide, by decide⟩

/-- No clause goes over blanks in front of another sign. -/
theorem IsClause.prefix_signTail_iff {pat gap : Text} (clause : IsClause pat) (blank : Blank gap) (rest : Text) {content : Text}
    (some : content ≠ []) : pat <+: content ++ signTail gap rest ↔ pat <+: content := by
  obtain ⟨word, someWord, rfl, clear⟩ := clause.spelled
  constructor
  · intro starts
    obtain inside | longer := List.prefix_or_prefix_of_prefix starts (List.prefix_append content _)
    · exact inside
    · obtain ⟨more, same⟩ := longer
      rw [← same, List.prefix_append_right_inj] at starts
      obtain ⟨first, content, rfl⟩ := List.exists_cons_of_ne_nil some
      have tail : content ++ more = ' ' :: word := (List.cons.inj same).2
      cases more with
      | nil => exact same ▸ (List.append_nil (first :: content)).symm ▸ List.prefix_rfl
      | cons symbol more =>
        obtain ⟨behind, begins⟩ := starts
        have head : symbol ∈ (signTail gap rest).head? := by rw [← begins]; rfl
        cases content with
        | nil =>
          -- The content is the sign, so the word would begin with a blank or with another sign
          obtain ⟨rfl, rfl⟩ := List.cons.inj tail
          obtain ⟨letter, letters, rfl⟩ := List.exists_cons_of_ne_nil someWord
          cases gap with
          | nil => exact absurd (List.cons.inj begins).1 (by decide)
          | cons blankSymbol gap =>
            have behindBlank : letter :: (letters ++ behind) = signTail gap rest := (List.cons.inj begins).2
            have second : letter ∈ (signTail gap rest).head? := by
              rw [← behindBlank]
              rfl
            obtain ⟨visible, other⟩ := clear letter List.mem_cons_self
            cases signTail_head (fun symbol member => blank symbol (List.mem_cons_of_mem _ member)) rest second with
            | inl white => exact absurd (visible.symm.trans white) Bool.false_ne_true
            | inr sign => exact absurd sign other
        | cons letter content =>
          have inWord : symbol ∈ word := by
            rw [← (List.cons.inj tail).2]
            exact List.mem_append_right _ List.mem_cons_self
          obtain ⟨visible, other⟩ := clear symbol inWord
          cases signTail_head blank rest head with
          | inl white => exact absurd (visible.symm.trans white) Bool.false_ne_true
          | inr sign => exact absurd sign other
  · intro starts
    exact starts.trans (List.prefix_append _ _)

theorem rfind_gap {pat gap : Text} (clause : IsClause pat) (blank : Blank gap) (rest : Text) :
    rfind pat (signTail gap rest) = (rfind pat ('=' :: rest)).map (gap.length + ·) := by
  induction gap with
  | nil => simp [signTail]
  | cons symbol gap inductionHypothesis =>
    have later := inductionHypothesis fun other member => blank other (List.mem_cons_of_mem _ member)
    have noSign : pat.isPrefixOf (symbol :: signTail gap rest) = false := by
      rw [Bool.eq_false_iff, ne_eq, List.isPrefixOf_iff_prefix]
      intro starts
      obtain ⟨word, _, rfl, _⟩ := clause.spelled
      obtain ⟨behind, same⟩ := starts
      have white := blank symbol List.mem_cons_self
      rw [← (List.cons.inj same).1] at white
      exact absurd white (by decide)
    change rfind pat (symbol :: signTail gap rest) = _
    rw [rfind, later, noSign]
    cases rfind pat ('=' :: rest) with
    | none => rfl
    | some pos =>
      rw [Option.map_some, Option.map_some, List.length_cons]
      exact congrArg some (Nat.add_right_comm _ _ _)

/-- A clause from the sign on moves with it; a clause in front of it stays. -/
theorem rfind_signTail {pat gap : Text} (clause : IsClause pat) (blank : Blank gap) (content rest : Text) :
    rfind pat (content ++ signTail gap rest) =
      match rfind pat ('=' :: rest) with
      | some pos => some (content.length + gap.length + pos)
      | none => rfind pat content := by
  induction content with
  | nil =>
    rw [List.nil_append, rfind_gap clause blank]
    cases rfind pat ('=' :: rest) with
    | some pos => simp
    | none =>
      obtain ⟨word, _, rfl, _⟩ := clause.spelled
      rfl
  | cons symbol content inductionHypothesis =>
    rw [List.cons_append, rfind, inductionHypothesis]
    cases rfind pat ('=' :: rest) with
    | some pos =>
      rw [List.length_cons]
      exact congrArg some (by omega)
    | none =>
      dsimp only
      rw [rfind]
      have same : pat.isPrefixOf (symbol :: (content ++ signTail gap rest)) = pat.isPrefixOf (symbol :: content) := by
        rw [Bool.eq_iff_iff, List.isPrefixOf_iff_prefix, List.isPrefixOf_iff_prefix]
        exact clause.prefix_signTail_iff blank rest (List.cons_ne_nil symbol content)
      rw [same]

/-! ## Clauses -/

/-- Where a place of a line is when other blanks stand in front of the sign. -/
def movedPlace (content gap gap' : Text) (pos : Nat) : Nat :=
  if pos < content.length then pos else pos - gap.length + gap'.length

theorem contains_take_signTail {gap : Text} (blank : Blank gap) (content rest : Text) (pos : Nat) :
    ((content ++ signTail gap rest).take (content.length + gap.length + pos)).contains '(' =
      (content.contains '(' || (('=' :: rest).take pos).contains '(') := by
  have none : '(' ∉ gap := by
    intro member
    exact absurd (blank '(' member) (by decide)
  rw [signTail, ← List.append_assoc, List.take_append, List.length_append, Nat.add_sub_cancel_left,
    List.take_of_length_le (by rw [List.length_append]; omega), Bool.eq_iff_iff]
  simp [none]

theorem findClausePattern_signTail {pat gap gap' : Text} (clause : IsClause pat) (blank : Blank gap) (blank' : Blank gap')
    (content rest : Text) : findClausePattern pat (content ++ signTail gap' rest) =
      (findClausePattern pat (content ++ signTail gap rest)).map (movedPlace content gap gap') := by
  rw [findClausePattern, findClausePattern, rfind_signTail clause blank, rfind_signTail clause blank']
  cases rfind pat ('=' :: rest) with
  | some pos =>
    simp only [Option.filter_some, contains_take_signTail blank, contains_take_signTail blank']
    split
    · rw [Option.map_some, movedPlace, if_neg (by omega)]
      exact congrArg some (by omega)
    · rfl
  | none =>
    dsimp only
    cases found : rfind pat content with
    | none => rfl
    | some pos =>
      obtain ⟨bound, starts⟩ := rfind_eq_some found
      have inside : pos < content.length := by
        obtain ⟨word, _, rfl, _⟩ := clause.spelled
        have long := starts.length_le
        rw [List.length_drop, List.length_cons] at long
        omega
      simp only [Option.filter_some, List.take_append_of_le_length bound]
      split
      · rw [Option.map_some, movedPlace, if_pos inside]
      · rfl

theorem findClause_signTail {gap gap' : Text} (blank : Blank gap) (blank' : Blank gap') (content rest : Text) :
    findClauseEqInLine (content ++ signTail gap' rest) =
      (findClauseEqInLine (content ++ signTail gap rest)).map (movedPlace content gap gap') := by
  rw [findClauseEqInLine, findClauseEqInLine, isSkippedLine_signTail content rest blank, isSkippedLine_signTail content rest blank']
  split
  · rfl
  · rw [findClausePattern_signTail isClause_delete blank blank', findClausePattern_signTail isClause_default blank blank',
      Option.map_or]

theorem findClausePattern_eq_some {word line : Text} {pos : Nat} (found : findClausePattern ('=' :: ' ' :: word) line = some pos) :
    ∃ rest, line.drop pos = '=' :: ' ' :: (word ++ rest) := by
  obtain ⟨_, rest, same⟩ := rfind_eq_some (Option.filter_eq_some_iff.mp found).1
  exact ⟨rest, same.symm⟩

theorem findClause_eq_some {line : Text} {pos : Nat} (found : findClauseEqInLine line = some pos) :
    isSkippedLine line = false ∧ ∃ rest, line.drop pos = '=' :: rest ∧ startsClause rest = true := by
  rw [findClauseEqInLine] at found
  split at found
  · cases found
  · next shown =>
    refine ⟨Bool.eq_false_iff.mpr shown, ?_⟩
    obtain delete | default := Option.or_eq_some_iff.mp found
    · obtain ⟨rest, starts⟩ := findClausePattern_eq_some delete
      exact ⟨_, starts, rfl⟩
    · obtain ⟨rest, starts⟩ := findClausePattern_eq_some default.2
      exact ⟨_, starts, rfl⟩

/-! ## Steps of the scanner -/

theorem eqStep_of_white {symbol : Char} (white : isWhitespace symbol = true) (scan : EqScan) (prev : Option Char) (rest : Text) :
    eqStep scan prev symbol rest = .one scan := by
  have different : ∀ other : Char, isWhitespace other = false → symbol ≠ other := by
    intro other visible same
    rw [same, visible] at white
    cases white
  cases mode : scan.mode with
  | inString =>
    simp only [eqStep, mode, quotedStep, if_neg (different '\\' (by decide)), if_neg (different '"' (by decide))]
  | inChar =>
    simp only [eqStep, mode, quotedStep, if_neg (different '\\' (by decide)), if_neg (different '\'' (by decide))]
  | code =>
    simp only [eqStep, mode, codeStep, if_neg (different '"' (by decide)), if_neg (different '\'' (by decide)),
      if_neg (different '(' (by decide)), if_neg (different ')' (by decide)), if_neg (different '\x7b' (by decide)),
      if_neg (different '\x7d' (by decide)), different '<' (by decide), different '>' (by decide), different '=' (by decide),
      false_and, if_false]

theorem codeStep_sign (scan : EqScan) (prev : Option Char) (rest : Text) : codeStep scan prev '=' rest =
    if scan.parenDepth = 0 ∧ scan.angleDepth ≤ 0 ∧ scan.braceDepth = 0 then
      if rest.head? = some '=' then .two scan
      else if prev.any operatorFronts.contains then .one scan
      else if startsClause rest then .one scan
      else .found
    else .one scan := by
  simp [codeStep]

theorem codeStep_less (scan : EqScan) (prev : Option Char) (rest : Text) : codeStep scan prev '<' rest =
    if scan.parenDepth = 0 ∧ scan.braceDepth = 0 then
      if rest.head? = some '<' then .two scan else .one { scan with angleDepth := scan.angleDepth + 1 }
    else .one scan := by
  simp [codeStep]

theorem codeStep_greater (scan : EqScan) (prev : Option Char) (rest : Text) : codeStep scan prev '>' rest =
    if scan.parenDepth = 0 ∧ scan.braceDepth = 0 ∧ 0 < scan.angleDepth then
      if rest.head? = some '>' then .two { scan with angleDepth := max (scan.angleDepth - 2) 0 }
      else .one { scan with angleDepth := scan.angleDepth - 1 }
    else .one scan := by
  simp [codeStep]

theorem codeStep_plain (scan : EqScan) {symbol : Char} (less : symbol ≠ '<') (greater : symbol ≠ '>') (sign : symbol ≠ '=') :
    ∃ scan', ∀ prev rest, codeStep scan prev symbol rest = .one scan' := by
  simp only [codeStep, less, greater, sign, false_and, if_false]
  split
  · exact ⟨_, fun _ _ => rfl⟩
  split
  · exact ⟨_, fun _ _ => rfl⟩
  split
  · exact ⟨_, fun _ _ => rfl⟩
  split
  · exact ⟨_, fun _ _ => rfl⟩
  split
  · exact ⟨_, fun _ _ => rfl⟩
  split
  · exact ⟨_, fun _ _ => rfl⟩
  · exact ⟨_, fun _ _ => rfl⟩

/-- At any other symbol the scanner only asks whether the next one is the same. -/
theorem codeStep_other (scan : EqScan) (prev : Option Char) {symbol : Char} (rest : Text) (sign : symbol ≠ '=') :
    (∃ scan', codeStep scan prev symbol rest = .one scan') ∨
      ((∃ scan', codeStep scan prev symbol rest = .two scan') ∧ rest.head? = some symbol ∧ isWhitespace symbol = false) := by
  by_cases less : symbol = '<'
  · subst less
    rw [codeStep_less]
    split
    · split
      · next same => exact .inr ⟨⟨_, rfl⟩, same, by decide⟩
      · exact .inl ⟨_, rfl⟩
    · exact .inl ⟨_, rfl⟩
  by_cases greater : symbol = '>'
  · subst greater
    rw [codeStep_greater]
    split
    · split
      · next same => exact .inr ⟨⟨_, rfl⟩, same, by decide⟩
      · exact .inl ⟨_, rfl⟩
    · exact .inl ⟨_, rfl⟩
  obtain ⟨scan', same⟩ := codeStep_plain scan less greater sign
  exact .inl ⟨scan', same prev rest⟩

theorem codeStep_congr (scan : EqScan) (prev : Option Char) {symbol : Char} {rest rest' : Text}
    (head : rest.head? = some symbol ↔ rest'.head? = some symbol) (clause : startsClause rest = startsClause rest') :
    codeStep scan prev symbol rest = codeStep scan prev symbol rest' := by
  by_cases less : symbol = '<'
  · subst less
    simp only [codeStep_less, head]
  by_cases greater : symbol = '>'
  · subst greater
    simp only [codeStep_greater, head]
  by_cases sign : symbol = '='
  · subst sign
    simp only [codeStep_sign, head, clause]
  obtain ⟨scan', same⟩ := codeStep_plain scan less greater sign
  rw [same, same]

theorem quotedStep_cases (scan : EqScan) (close symbol : Char) :
    (∃ scan', quotedStep scan close symbol = .one scan') ∨ quotedStep scan close symbol = .two scan := by
  rw [quotedStep]
  split
  · exact .inr rfl
  · split
    · exact .inl ⟨_, rfl⟩
    · exact .inl ⟨_, rfl⟩

theorem eqStep_found_iff {scan : EqScan} {prev : Option Char} {symbol : Char} {rest : Text} :
    eqStep scan prev symbol rest = .found ↔ scan.mode = .code ∧ symbol = '=' ∧ (scan.parenDepth = 0 ∧ scan.angleDepth ≤ 0 ∧
      scan.braceDepth = 0) ∧ rest.head? ≠ some '=' ∧ prev.any operatorFronts.contains = false ∧ startsClause rest = false := by
  have quoted (close : Char) : quotedStep scan close symbol ≠ .found := by
    obtain ⟨scan', step⟩ | step := quotedStep_cases scan close symbol
    · simp [step]
    · simp [step]
  unfold eqStep
  cases mode : scan.mode with
  | inString => simpa using quoted '"'
  | inChar => simpa using quoted '\''
  | code =>
    by_cases sign : symbol = '='
    · subst sign
      dsimp only
      rw [codeStep_sign]
      by_cases depth : scan.parenDepth = 0 ∧ scan.angleDepth ≤ 0 ∧ scan.braceDepth = 0
      · rw [if_pos depth]
        repeat' split
        all_goals simp_all
      · rw [if_neg depth]
        simp only [reduceCtorEq, false_iff]
        exact fun all => depth all.2.2.1
    · obtain ⟨scan', step⟩ | ⟨⟨scan', step⟩, _⟩ := codeStep_other scan prev rest sign
      · simp [step, sign]
      · simp [step, sign]

theorem eqStep_two {scan scan' : EqScan} {prev : Option Char} {symbol : Char} {rest : Text}
    (step : eqStep scan prev symbol rest = .two scan') :
    (scan.mode ≠ .code ∧ scan' = scan) ∨ (rest.head? = some symbol ∧ isWhitespace symbol = false) := by
  have quoted (close : Char) (two : quotedStep scan close symbol = .two scan') : scan' = scan := by
    obtain ⟨one, step⟩ | step := quotedStep_cases scan close symbol
    · rw [step] at two
      cases two
    · rw [step] at two
      cases two
      rfl
  unfold eqStep at step
  cases mode : scan.mode with
  | inString =>
    rw [mode] at step
    exact .inl ⟨by simp, quoted _ step⟩
  | inChar =>
    rw [mode] at step
    exact .inl ⟨by simp, quoted _ step⟩
  | code =>
    rw [mode] at step
    right
    by_cases sign : symbol = '='
    · subst sign
      dsimp only at step
      rw [codeStep_sign] at step
      refine ⟨?_, by decide⟩
      repeat' split at step
      all_goals first | assumption | cases step
    · obtain ⟨one, other⟩ | ⟨_, same⟩ := codeStep_other scan prev rest sign
      · dsimp only at step
        rw [other] at step
        cases step
      · exact same

theorem eqStep_sign_one {scan scan' : EqScan} {prev : Option Char} {rest : Text} (step : eqStep scan prev '=' rest = .one scan') :
    scan' = scan := by
  unfold eqStep at step
  cases mode : scan.mode with
  | inString =>
    rw [mode] at step
    exact (EqStep.one.inj step).symm
  | inChar =>
    rw [mode] at step
    exact (EqStep.one.inj step).symm
  | code =>
    rw [mode] at step
    dsimp only at step
    rw [codeStep_sign] at step
    repeat' split at step
    all_goals cases step
    all_goals rfl

theorem eqStep_congr (scan : EqScan) (prev : Option Char) {symbol : Char} {rest rest' : Text}
    (head : rest.head? = some symbol ↔ rest'.head? = some symbol) (clause : startsClause rest = startsClause rest') :
    eqStep scan prev symbol rest = eqStep scan prev symbol rest' := by
  unfold eqStep
  cases scan.mode with
  | inString => rfl
  | inChar => rfl
  | code => exact codeStep_congr scan prev head clause

/-! ## Assignments -/

theorem startsClause_signTail (content rest : Text) {gap : Text} (blank : Blank gap) : startsClause (content ++ signTail gap rest) =
    ("delete".toList.isPrefixOf (trimStart content) || "default".toList.isPrefixOf (trimStart content)) := by
  have delete : "delete".toList <+: trimStart (content ++ signTail gap rest) ↔ "delete".toList <+: trimStart content :=
    prefix_trimStart_signTail rest blank (by decide) (by decide)
  have default : "default".toList <+: trimStart (content ++ signTail gap rest) ↔ "default".toList <+: trimStart content :=
    prefix_trimStart_signTail rest blank (by decide) (by decide)
  rw [startsClause, Bool.eq_iff_iff, Bool.or_eq_true, Bool.or_eq_true]
  simp only [List.isPrefixOf_iff_prefix, delete, default]

theorem findEqFrom_cons (scan : EqScan) (prev : Option Char) (symbol : Char) (rest : Text) :
    findEqFrom scan prev (symbol :: rest) =
      match eqStep scan prev symbol rest with
      | .found => some 0
      | .one scan => (findEqFrom scan (some symbol) rest).map (· + 1)
      | .two scan =>
        match rest with
        | [] => none
        | next :: rest => (findEqFrom scan (some next) rest).map (· + 2) := by
  cases rest with
  | nil =>
    rw [findEqFrom]
    cases eqStep scan prev symbol [] with
    | found => rfl
    | one scan => rfl
    | two scan => rfl
  | cons next rest => rfl

theorem findEqFrom_gap {gap : Text} (blank : Blank gap) (scan : EqScan) (prev : Option Char) (rest : Text) :
    findEqFrom scan prev (signTail gap rest) = some gap.length ↔ eqStep scan (gap.getLast?.or prev) '=' rest = .found := by
  induction gap generalizing prev with
  | nil =>
    rw [signTail, List.nil_append, findEqFrom_cons]
    change _ ↔ eqStep scan prev '=' rest = .found
    cases eqStep scan prev '=' rest with
    | found => simp
    | one scan => simp
    | two scan => cases rest <;> simp
  | cons symbol gap inductionHypothesis =>
    have later := inductionHypothesis (fun other member => blank other (List.mem_cons_of_mem _ member)) (some symbol)
    rw [signTail, List.cons_append, findEqFrom_cons, eqStep_of_white (blank symbol List.mem_cons_self)]
    dsimp only
    rw [← signTail, List.length_cons, Option.map_eq_some_iff]
    simp only [Nat.add_right_cancel_iff, exists_eq_right]
    rw [later, List.getLast?_cons]
    cases gap.getLast? with
    | none => rfl
    | some last => rfl

/-- A sign that is found is found again behind blanks of which the last is a space. -/
theorem findEqFrom_respaced {gap spaces : Text} (blank : Blank gap) (blankSpaces : Blank spaces) (last : spaces.getLast? = some ' ')
    (rest content : Text) (scan : EqScan) (prev : Option Char) (visible : ∀ symbol ∈ content.getLast?, isWhitespace symbol = false)
    (found : findEqFrom scan prev (content ++ signTail gap rest) = some (content.length + gap.length)) :
    findEqFrom scan prev (content ++ signTail spaces rest) = some (content.length + spaces.length) := by
  induction content using List.twoStepInduction generalizing scan prev with
  | nil =>
    rw [List.nil_append, List.length_nil, Nat.zero_add, findEqFrom_gap blank, eqStep_found_iff] at found
    rw [List.nil_append, List.length_nil, Nat.zero_add, findEqFrom_gap blankSpaces, eqStep_found_iff, last]
    have space : operatorFronts.contains ' ' = false := by decide
    exact ⟨found.1, found.2.1, found.2.2.1, found.2.2.2.1, space, found.2.2.2.2.2⟩
  | singleton symbol =>
    have shown : isWhitespace symbol = false := visible symbol rfl
    have inFront (behind : Text) (blankBehind : Blank behind) (isSign : behind = [] → symbol ≠ '=') :
        (signTail behind rest).head? ≠ some symbol := by
      intro same
      cases behind with
      | nil => exact isSign rfl (Option.some.inj same).symm
      | cons first behind =>
        have white := blankBehind first List.mem_cons_self
        rw [Option.some.inj same, shown] at white
        cases white
    rw [List.singleton_append, findEqFrom_cons] at found
    cases step : eqStep scan prev symbol (signTail gap rest) with
    | found =>
      rw [step, List.length_singleton] at found
      have none := Option.some.inj found
      omega
    | two scan' =>
      -- The next symbol is passed over, and a literal that is open there does not end before the sign
      rw [step] at found
      cases gap with
      | nil =>
        dsimp only [signTail, List.nil_append] at found
        obtain ⟨pos, _, same⟩ := Option.map_eq_some_iff.mp found
        rw [List.length_singleton, List.length_nil] at same
        omega
      | cons first gap =>
        have blankGap : Blank gap := fun other member => blank other (List.mem_cons_of_mem _ member)
        obtain ⟨quoted, rfl⟩ | ⟨same, _⟩ := eqStep_two step
        · dsimp only [signTail, List.cons_append] at found
          obtain ⟨pos, further, same⟩ := Option.map_eq_some_iff.mp found
          obtain rfl : pos = gap.length := by
            rw [List.length_singleton, List.length_cons] at same
            omega
          rw [← signTail, findEqFrom_gap blankGap, eqStep_found_iff] at further
          exact absurd further.1 quoted
        · exact absurd same (inFront _ blank (fun empty => absurd empty (List.cons_ne_nil _ _)))
    | one scan' =>
      rw [step] at found
      dsimp only at found
      obtain ⟨pos, further, same⟩ := Option.map_eq_some_iff.mp found
      obtain rfl : pos = gap.length := by
        rw [List.length_singleton] at same
        omega
      rw [findEqFrom_gap blank, eqStep_found_iff] at further
      have isSign : gap = [] → symbol ≠ '=' := by
        rintro rfl rfl
        obtain rfl := eqStep_sign_one step
        rw [eqStep, further.1] at step
        dsimp only at step
        rw [codeStep_sign, if_pos further.2.2.1, signTail, List.nil_append, List.head?_cons, if_pos rfl] at step
        cases step
      have sameStep : eqStep scan prev symbol (signTail gap rest) = eqStep scan prev symbol (signTail spaces rest) := by
        refine eqStep_congr scan prev ?_ ?_
        · simp only [inFront gap blank isSign, inFront spaces blankSpaces (fun empty => by rw [empty] at last; cases last)]
        · have first := startsClause_signTail [] rest blank
          have second := startsClause_signTail [] rest blankSpaces
          exact first.trans second.symm
      rw [List.singleton_append, findEqFrom_cons, ← sameStep, step]
      dsimp only
      rw [(findEqFrom_gap blankSpaces scan' (some symbol) rest).mpr]
      · rw [Option.map_some, List.length_singleton, Nat.add_comm]
      · rw [eqStep_found_iff, last]
        have space : operatorFronts.contains ' ' = false := by decide
        exact ⟨further.1, further.2.1, further.2.2.1, further.2.2.2.1, space, further.2.2.2.2.2⟩
  | cons_cons symbol next content later further =>
    have lastVisible : ∀ symbol ∈ (next :: content).getLast?, isWhitespace symbol = false := by
      intro symbol isLast
      exact visible symbol (by rw [List.getLast?_cons_cons]; exact isLast)
    have sameStep : eqStep scan prev symbol (next :: content ++ signTail gap rest) =
        eqStep scan prev symbol (next :: content ++ signTail spaces rest) := by
      refine eqStep_congr scan prev Iff.rfl ?_
      rw [startsClause_signTail _ rest blank, startsClause_signTail _ rest blankSpaces]
    rw [List.cons_append, findEqFrom_cons] at found ⊢
    rw [← sameStep]
    cases step : eqStep scan prev symbol (next :: content ++ signTail gap rest) with
    | found =>
      rw [step] at found
      have none := Option.some.inj found
      rw [List.length_cons] at none
      omega
    | one scan' =>
      rw [step] at found
      dsimp only at found ⊢
      obtain ⟨pos, there, same⟩ := Option.map_eq_some_iff.mp found
      obtain rfl : pos = (next :: content).length + gap.length := by
        rw [List.length_cons] at same
        omega
      rw [further next scan' (some symbol) lastVisible there, Option.map_some]
      exact congrArg some (by simp only [List.length_cons]; omega)
    | two scan' =>
      rw [step] at found
      dsimp only [List.cons_append] at found ⊢
      obtain ⟨pos, there, same⟩ := Option.map_eq_some_iff.mp found
      obtain rfl : pos = content.length + gap.length := by
        rw [List.length_cons, List.length_cons] at same
        omega
      have contentVisible : ∀ symbol ∈ content.getLast?, isWhitespace symbol = false := by
        intro symbol isLast
        refine lastVisible symbol ?_
        rw [List.getLast?_cons, Option.mem_def.mp isLast]
        rfl
      rw [later scan' (some next) contentVisible there, Option.map_some, List.length_cons, List.length_cons]
      exact congrArg some (by omega)

theorem findEqFrom_eq_some {scan : EqScan} {prev : Option Char} {line : Text} {pos : Nat}
    (found : findEqFrom scan prev line = some pos) : ∃ rest, line.drop pos = '=' :: rest ∧ startsClause rest = false := by
  induction line using List.twoStepInduction generalizing scan prev pos with
  | nil => cases found
  | singleton symbol =>
    rw [findEqFrom] at found
    split at found
    · next step =>
      obtain rfl := Option.some.inj found
      obtain ⟨_, rfl, _, _, _, clear⟩ := eqStep_found_iff.mp step
      exact ⟨[], rfl, clear⟩
    · cases found
  | cons_cons symbol next line later further =>
    rw [findEqFrom] at found
    split at found
    · next step =>
      obtain rfl := Option.some.inj found
      obtain ⟨_, rfl, _, _, _, clear⟩ := eqStep_found_iff.mp step
      exact ⟨next :: line, rfl, clear⟩
    · obtain ⟨pos, there, rfl⟩ := Option.map_eq_some_iff.mp found
      exact further next there
    · obtain ⟨pos, there, rfl⟩ := Option.map_eq_some_iff.mp found
      exact later there

theorem findAssignment_eq_some {line : Text} {pos : Nat} (found : findAssignmentEqInLine line = some pos) :
    isSkippedLine line = false ∧ ∃ rest, line.drop pos = '=' :: rest ∧ startsClause rest = false := by
  rw [findAssignmentEqInLine] at found
  split at found
  · cases found
  · next shown => exact ⟨Bool.eq_false_iff.mpr shown, findEqFrom_eq_some found⟩

/-! ## Carriage returns at the end -/

theorem prefix_trimStart_returned {pat : Text} (clear : '\r' ∉ pat) (line : Text) :
    pat <+: trimStart (line ++ ['\r']) ↔ pat <+: trimStart line := by
  by_cases shown : trimStart line = []
  · have allBlank : Blank line := List.dropWhile_eq_nil_iff.mp shown
    have returned : Blank ['\r'] := by
      intro symbol member
      rw [List.mem_singleton.mp member]
      decide
    rw [shown, trimStart_of_blank (allBlank.append returned)]
  · rw [trimStart_append shown]
    exact prefix_append_iff _ fun symbol first => Option.some.inj first ▸ clear

theorem isSkippedLine_returned (line : Text) : isSkippedLine (line ++ ['\r']) = isSkippedLine line := by
  rw [isSkippedLine, isSkippedLine, Bool.eq_iff_iff, Bool.or_eq_true, Bool.or_eq_true]
  simp only [List.isPrefixOf_iff_prefix]
  rw [prefix_trimStart_returned (by decide), prefix_trimStart_returned (by decide)]

theorem startsClause_returned (line : Text) : startsClause (line ++ ['\r']) = startsClause line := by
  rw [startsClause, startsClause, Bool.eq_iff_iff, Bool.or_eq_true, Bool.or_eq_true]
  simp only [List.isPrefixOf_iff_prefix]
  rw [prefix_trimStart_returned (by decide), prefix_trimStart_returned (by decide)]

theorem rfind_returned {pat : Text} (clause : IsClause pat) (returned : '\r' ∉ pat) (line : Text) :
    rfind pat (line ++ ['\r']) = rfind pat line := by
  induction line with
  | nil =>
    obtain ⟨word, _, rfl, _⟩ := clause.spelled
    rfl
  | cons symbol line inductionHypothesis =>
    rw [List.cons_append, rfind, rfind, inductionHypothesis]
    have same : pat.isPrefixOf (symbol :: (line ++ ['\r'])) = pat.isPrefixOf (symbol :: line) := by
      rw [Bool.eq_iff_iff, List.isPrefixOf_iff_prefix, List.isPrefixOf_iff_prefix]
      exact prefix_append_iff (symbol :: line) fun other first => Option.some.inj first ▸ returned
    rw [same]

theorem findClausePattern_returned {pat : Text} (clause : IsClause pat) (returned : '\r' ∉ pat) (line : Text) :
    findClausePattern pat (line ++ ['\r']) = findClausePattern pat line := by
  rw [findClausePattern, findClausePattern, rfind_returned clause returned]
  cases found : rfind pat line with
  | none => rfl
  | some pos => rw [Option.filter_some, Option.filter_some, List.take_append_of_le_length (rfind_eq_some found).1]

theorem findEqFrom_returned (scan : EqScan) (prev : Option Char) (line : Text) :
    findEqFrom scan prev (line ++ ['\r']) = findEqFrom scan prev line := by
  have returned (scan : EqScan) (prev : Option Char) : findEqFrom scan prev ['\r'] = none := by
    rw [findEqFrom, eqStep_of_white (by decide)]
    rfl
  induction line using List.twoStepInduction generalizing scan prev with
  | nil => exact returned scan prev
  | singleton symbol =>
    have sameStep : eqStep scan prev symbol ['\r'] = eqStep scan prev symbol [] := by
      by_cases white : isWhitespace symbol = true
      · rw [eqStep_of_white white, eqStep_of_white white]
      · refine eqStep_congr scan prev ?_ (startsClause_returned [])
        simp only [List.head?_cons, List.head?_nil, reduceCtorEq, iff_false, Option.some.injEq]
        rintro rfl
        exact white (by decide)
    rw [List.singleton_append, findEqFrom_cons, findEqFrom_cons, sameStep]
    cases eqStep scan prev symbol [] with
    | found => rfl
    | one scan =>
      dsimp only
      rw [returned]
      rfl
    | two scan => rfl
  | cons_cons symbol next line later further =>
    have sameStep : eqStep scan prev symbol (next :: line ++ ['\r']) = eqStep scan prev symbol (next :: line) :=
      eqStep_congr scan prev Iff.rfl (startsClause_returned (next :: line))
    rw [List.cons_append, findEqFrom_cons, findEqFrom_cons, sameStep]
    cases eqStep scan prev symbol (next :: line) with
    | found => rfl
    | one scan =>
      dsimp only
      rw [further next]
    | two scan =>
      dsimp only [List.cons_append]
      rw [later]

/-! ## What the two searches have in common -/

/-- A search for a sign that does not depend on the blanks in front of it. -/
structure FindsSigns (find : Text → Option Nat) : Prop where
  sign : ∀ {line : Text} {pos : Nat}, find line = some pos → isSkippedLine line = false ∧ ∃ rest, line.drop pos = '=' :: rest
  respaced : ∀ {content gap spaces : Text} (rest : Text), Blank gap → Blank spaces → spaces.getLast? = some ' ' →
    (∀ symbol ∈ content.getLast?, isWhitespace symbol = false) →
    find (content ++ signTail gap rest) = some (content.length + gap.length) →
    find (content ++ signTail spaces rest) = some (content.length + spaces.length)
  returned : ∀ line, find (line ++ ['\r']) = find line

theorem findsSigns_clause : FindsSigns findClauseEqInLine where
  sign found := by
    obtain ⟨shown, rest, starts, _⟩ := findClause_eq_some found
    exact ⟨shown, rest, starts⟩
  respaced {content gap spaces} rest blank blankSpaces _ _ found := by
    rw [findClause_signTail blank blankSpaces, found, Option.map_some, movedPlace, if_neg (by omega)]
    exact congrArg some (by omega)
  returned line := by
    rw [findClauseEqInLine, findClauseEqInLine, isSkippedLine_returned, findClausePattern_returned isClause_delete (by decide),
      findClausePattern_returned isClause_default (by decide)]

theorem findsSigns_assignment : FindsSigns findAssignmentEqInLine where
  sign found := by
    obtain ⟨shown, rest, starts, _⟩ := findAssignment_eq_some found
    exact ⟨shown, rest, starts⟩
  respaced {content gap spaces} rest blank blankSpaces last visible found := by
    rw [findAssignmentEqInLine, isSkippedLine_signTail content rest blank] at found
    rw [findAssignmentEqInLine, isSkippedLine_signTail content rest blankSpaces]
    split at found
    · cases found
    · next shown =>
      rw [if_neg shown]
      exact findEqFrom_respaced blank blankSpaces last rest content _ none visible found
  returned line := by
    rw [findAssignmentEqInLine, findAssignmentEqInLine, isSkippedLine_returned, findEqFrom_returned]

end MjFormatter.Verified
