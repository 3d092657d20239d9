import ForwardShading.Proofs.Glsl.CursorTurn

/-!
# Runs of a cursor

The run of a cursor over a text comes to what a scan of the text comes to (`Cursor.finish_eq`).  So a
cursor takes every stage text apart, and no slice that it cuts is out of bounds or inside of a
character (`Cursor.finish_start`).
-/

namespace ForwardShading.Glsl

open Text

namespace Cursor

variable {source front kept indent cs : List Char} {c : Cursor}

theorem At.position_lt {d : Char} {ds : List Char} (h : c.At source front kept indent (d :: ds)) :
    c.position < size source := by
  have hpos := d.utf8Size_pos
  rw [h.position, h.source_eq, size_append _ (d :: ds), size_cons]
  omega

/-- The octets of a character that is not an ASCII one are passed over one by one. -/
theorem finish_marks {bs rest : List Char} (hbs : ∀ b ∈ bs, 128 ≤ b.toNat) (hne : bs ≠ [])
    (h : (octets source).drop c.position = bs ++ rest) :
    c.finish source = (c.pass (c.position + bs.length)).finish source := by
  induction bs generalizing c with
  | nil => exact absurd rfl hne
  | cons b bs ih =>
    have hb := hbs b List.mem_cons_self
    have hstep : c.step source = .ok (c.pass (c.position + 1)) := by
      rw [List.cons_append] at h
      simp only [step, h, Lexeme.classify_of_le hb, Position.after, Position.bracket_of_le hb]
      rfl
    rw [finish_of_step_eq_ok (lt_of_getElem? (getElem?_of_drop h)) hstep]
    by_cases hnil : bs = []
    · rw [hnil]
      rfl
    · have hdrop : (octets source).drop (c.pass (c.position + 1)).position = bs ++ rest := by
        have htail := congrArg List.tail h
        rwa [List.tail_drop] at htail
      rw [ih (fun b hb => hbs b (List.mem_cons_of_mem _ hb)) hnil hdrop]
      simp only [pass, List.length_cons, Nat.add_assoc, Nat.add_comm 1]

theorem finish_blanks {blanks : List Char} (hblanks : ∀ b ∈ blanks, isBlank b = true)
    (h : c.At source front kept indent (blanks ++ cs)) :
    let c' := { c with position := size (front ++ kept ++ (indent ++ blanks)) }
    c.finish source = c'.finish source ∧ c'.At source front kept (indent ++ blanks) cs := by
  refine ⟨?_, by simpa using h.source_eq, h.copiedTo, h.indentStart, rfl⟩
  induction blanks generalizing indent c with
  | nil => rw [List.append_nil, ← h.position]
  | cons b bs ih =>
    have hb := hblanks b List.mem_cons_self
    have hstep : c.step source =
        .ok { c with position := size (front ++ kept ++ (indent ++ [b])) } := by
      rw [List.cons_append] at h
      simp only [step, h.position, drop_octets h.source_eq, octets_cons_of_ascii (isBlank_lt hb),
        Lexeme.classify_blank hb, Position.after]
      rw [← List.append_assoc, size_append _ [b], size_cons_of_ascii (isBlank_lt hb)]
      rfl
    have hnext : ({ c with position := size (front ++ kept ++ (indent ++ [b])) } : Cursor).At source
        front kept (indent ++ [b]) (bs ++ cs) :=
      ⟨by simpa using h.source_eq, h.copiedTo, h.indentStart, by rw [List.append_assoc]⟩
    rw [finish_of_step_eq_ok h.position_lt hstep,
      ih (fun b hb => hblanks b (List.mem_cons_of_mem _ hb)) hnext, List.append_assoc indent]
    rfl

theorem step_of_word {d : Char} {ds : List Char} (hd : isWordStart d = true)
    (h : c.At source front kept indent (d :: ds)) :
    c.step source = c.readOutcome front kept indent (d :: ds) (c.point.statement (d :: ds)) := by
  have hbounds := isWordChar_bounds (isWordChar_of_isWordStart hd)
  have hlt : d.toNat < 128 := by omega
  rw [← stepWord_eq h (List.dropWhile_cons_of_neg (not_isBlank_of_isWordStart hd))]
  simp only [step, h.position, drop_octets h.source_eq, octets_cons_of_ascii hlt,
    Lexeme.classify_word hd]

/-- A cursor goes over the blanks in front of a statement. -/
theorem finish_of_statement (h : c.At source front kept [] cs) (hs : c.point.statement cs ≠ .absent) :
    let c' := { c with position := size (front ++ kept ++ cs.takeWhile isBlank) }
    c.finish source = c'.finish source ∧ c'.position < size source ∧
      c'.step source = c'.readOutcome front kept (cs.takeWhile isBlank) (cs.dropWhile isBlank)
        (c.point.statement (cs.dropWhile isBlank)) := by
  intro c'
  rw [← List.takeWhile_append_dropWhile (p := isBlank) (l := cs)] at h
  obtain ⟨hfinish, hat⟩ := finish_blanks (fun b hb => List.mem_takeWhile_imp hb) h
  have hs' : c.point.statement (cs.dropWhile isBlank) ≠ .absent := by
    rw [Position.statement_dropWhile_blank]
    cases hread : c.point.statement cs with
    | absent => exact absurd hread hs
    | unterminated => exact Statement.Reading.noConfusion
    | complete _ _ => exact Statement.Reading.noConfusion
  obtain ⟨d, ds, hcons, hd⟩ :=
    Position.exists_word_of_statement (List.dropWhile_idempotent _ _) hs'
  rw [hcons] at hat ⊢
  exact ⟨hfinish, hat.position_lt, step_of_word hd hat⟩

/-- The stage that a run comes to, where `kept` is the text not copied yet and `ps` are the pieces
behind it. -/
def stage (c : Cursor) (kept : List Char) (ps : List Piece) : Except ScanFault Stage :=
  (fun ds => ⟨String.ofList (c.residual ++ kept ++ Piece.remainder c.marked ps),
    c.declarations ++ ds⟩) <$> (Piece.declarations ps).mapError .declaration

theorem stage_kept (c : Cursor) (kept cs : List Char) (ps : List Piece) :
    c.stage kept (.kept cs :: ps) = c.stage (kept ++ cs) ps := by
  simp only [stage, Piece.remainder_kept, Piece.declarations, List.append_assoc]

theorem stage_statement (c : Cursor) (kept : List Char) (s : Statement) (ps : List Piece)
    (stop : Nat) : c.stage kept (.statement s :: ps) =
      s.declaration.mapError .declaration >>= fun d => (c.remove kept d stop).stage [] ps := by
  simp only [stage, Piece.remainder_statement, Piece.declarations, remove]
  cases s.declaration with
  | error e => rfl
  | ok d =>
    cases Piece.declarations ps with
    | error e => rfl
    | ok ds =>
      show Except.ok (Stage.mk _ _) = .ok (Stage.mk _ _)
      simp

theorem trim_dropWhile_blank (cs : List Char) : trim (cs.dropWhile isBlank) = trim cs := by
  have hstart : trimStart (cs.dropWhile isBlank) = trimStart cs := by
    induction cs with
    | nil => rfl
    | cons c cs ih =>
      by_cases hc : isBlank c = true
      · rw [List.dropWhile_cons_of_pos hc, ih, trimStart, trimStart,
          List.dropWhile_cons_of_pos (isWhite_of_isBlank hc)]
      · rw [List.dropWhile_cons_of_neg hc]
  rw [trim, trim, hstart]

theorem At.remove {s : Statement} {rest : List Char} (h : c.At source front kept [] cs)
    (hs : c.point.statement cs = .complete s rest) (d : Declaration) :
    (c.remove kept d (size (front ++ kept ++ s.text))).At source (front ++ kept ++ s.text) [] []
      rest where
  source_eq := by
    rw [List.append_nil, List.append_nil, List.append_assoc, Position.text_append_of_statement hs,
      h.source_eq, List.append_nil]
  copiedTo := rfl
  indentStart := by
    rw [List.append_nil]
    rfl
  position := by
    rw [List.append_nil, List.append_nil]
    rfl

theorem finish_of_complete {s : Statement} {rest : List Char} (h : c.At source front kept [] cs)
    (hs : c.point.statement cs = .complete s rest) :
    c.finish source = s.declaration.mapError .declaration >>= fun d =>
      (c.remove kept d (size (front ++ kept ++ s.text))).finish source := by
  obtain ⟨hfinish, hlt, hstep⟩ := finish_of_statement h (by simp [hs])
  have htext : front ++ kept ++ cs.takeWhile isBlank ++ Statement.text { s with indent := [] } =
      front ++ kept ++ s.text := by
    simp [Statement.text, Position.indent_of_statement hs]
  have hread : Statement.declaration { s with indent := [] } = s.declaration := rfl
  rw [Position.statement_dropWhile_blank, hs, readOutcome, htext, hread] at hstep
  rw [hfinish]
  cases hd : s.declaration with
  | error e =>
    rw [hd] at hstep
    exact finish_of_step_eq_error hlt hstep
  | ok d =>
    rw [hd] at hstep
    exact finish_of_step_eq_ok hlt hstep

theorem finish_of_unterminated (h : c.At source front kept [] cs)
    (hs : c.point.statement cs = .unterminated) :
    c.finish source = .error (.declaration (.malformed (String.ofList (trim cs)))) := by
  obtain ⟨hfinish, hlt, hstep⟩ := finish_of_statement h (by simp [hs])
  rw [Position.statement_dropWhile_blank, hs] at hstep
  rw [hfinish, finish_of_step_eq_error hlt hstep, trim_dropWhile_blank]

/-- A cursor goes over the lexeme in front of it, by one turn or by one for each octet of a character.
Behind a newline a new indent begins. -/
theorem finish_of_absent {d : Char} {ds : List Char} (h : c.At source front kept indent (d :: ds))
    (hs : c.point.statement (d :: ds) = .absent) :
    let k := Lexeme.classify c.point.lineStart d ds
    ∃ stop first kept' indent',
      let c' := { c with position := stop, indentStart := first, point := c.point.after d k }
      c.finish source = c'.finish source ∧ c'.At source front kept' indent' (k.split ds).2 ∧
        kept' ++ indent' = kept ++ indent ++ d :: (k.split ds).1 ∧
        (indent' = [] ∨ c'.point.statement (k.split ds).2 = .absent) := by
  intro k
  have hsource : source = front ++ kept ++ indent ++ d :: (k.split ds).1 ++ (k.split ds).2 := by
    rw [List.append_assoc _ (d :: _), List.cons_append, k.split_append]
    exact h.source_eq
  by_cases hd : d.toNat < 128
  · have hfinish := finish_of_step_eq_ok h.position_lt (step_of_absent hd h hs)
    by_cases hk : Lexeme.classify c.point.lineStart d ds = .newline
    · refine ⟨_, _, kept ++ indent ++ d :: (k.split ds).1, [], hfinish, ?_, List.append_nil _,
        .inl rfl⟩
      refine ⟨by simpa using hsource, h.copiedTo, ?_, ?_⟩
      · simp only [if_pos hk, List.append_assoc]
        rfl
      · simp only [List.append_nil, List.append_assoc]
        rfl
    · refine ⟨_, _, kept, indent ++ d :: (k.split ds).1, hfinish, ?_, (List.append_assoc _ _ _).symm,
        .inr (Dissection.statement_after_of_ne hs hk)⟩
      refine ⟨by simpa using hsource, h.copiedTo, ?_, ?_⟩
      · simp only [if_neg hk]
        exact h.indentStart
      · simp only [List.append_assoc]
        rfl
  · have hle : 128 ≤ d.toNat := Nat.le_of_not_lt hd
    have hk : Lexeme.classify c.point.lineStart d ds = .mark := Lexeme.classify_of_le hle _ _
    have hne : Lexeme.classify c.point.lineStart d ds ≠ .newline := by
      rw [hk]
      decide
    have hdrop : (octets source).drop c.position = octets [d] ++ octets ds := by
      rw [h.position, drop_octets h.source_eq, ← octets_append]
      rfl
    have hfinish := finish_marks (le_toNat_of_mem_octets hle) (octets_singleton_ne_nil d) hdrop
    have hpoint : c.point.after d k = { c.point with lineStart := false } := by
      simp only [k, hk, Position.after, Position.bracket_of_le hle]
    rw [pass, ← hpoint] at hfinish
    refine ⟨_, _, kept, indent ++ d :: (k.split ds).1, hfinish, ?_, (List.append_assoc _ _ _).symm,
      .inr (Dissection.statement_after_of_ne hs hne)⟩
    refine ⟨by simpa using hsource, h.copiedTo, h.indentStart, ?_⟩
    simp only [k, hk]
    rw [← List.append_assoc, size_append _ (d :: _), ← h.position]
    rfl

/-- The run of a cursor comes to what the scan of the text in front of it comes to. -/
theorem finish_eq (h : c.At source front kept indent cs)
    (hindent : indent = [] ∨ c.point.statement cs = .absent) :
    c.finish source = c.stage (kept ++ indent) (scan c.point cs) := by
  generalize hp : c.point = p at hindent ⊢
  fun_induction scan p cs generalizing c front kept indent with
  | case1 p cs s rest hs _ ih =>
    subst hp
    obtain rfl : indent = [] := hindent.resolve_right (by simp [hs])
    have hline := Position.lineStart_of_statement (p := c.point) cs (by simp [hs])
    have hpoint : { c.point with lineStart := true } = c.point := by
      rw [← hline]
    rw [finish_of_complete h hs, List.append_nil,
      stage_statement _ _ _ _ (size (front ++ kept ++ s.text))]
    exact congrArg _ (funext fun d => ih (h.remove hs d) hpoint (.inl rfl))
  | case2 p cs hs =>
    subst hp
    obtain rfl : indent = [] := hindent.resolve_right (by simp [hs])
    rw [finish_of_unterminated h hs]
    rfl
  | case3 p hs =>
    have hend : size source ≤ c.position := by
      rw [h.position, h.source_eq, List.append_nil]
    have hsource : source = front ++ (kept ++ indent) ++ [] := by
      simpa using h.source_eq
    have hleft : slice source c.copiedTo (size source) = .ok (kept ++ indent) := by
      rw [h.copiedTo, hsource, List.append_nil]
      exact slice_of_eq (List.append_nil _).symm
    rw [finish_of_le hend, hleft]
    show Except.ok (Stage.mk _ _) = .ok (Stage.mk _ _)
    simp
  | case4 p d ds hs k _ =>
    rename_i ih
    subst hp
    obtain ⟨stop, first, kept', indent', hfinish, hat, hkept, hindent'⟩ := finish_of_absent h hs
    rw [hfinish, stage_kept, ← hkept]
    exact ih hat rfl hindent'

/-- A cursor comes to the end of every text, in no more turns than the text has octets, and to the
stage of the text or its error.  It goes on at every turn, with its offsets in order, and cuts no
slice that is not there. -/
theorem finish_start (source : String) :
    start.finish source.toList = (Stage.ofSource source).mapError .declaration ∧
    ∀ n c, Reaches source.toList n c →
      n ≤ c.position ∧ c.Ordered source.toList ∧
      (c.position < size source.toList →
        c.step source.toList ≠ .error .slice ∧
        ∀ c', c.step source.toList = .ok c' → c.Turn source.toList c') ∧
      (c.position = size source.toList →
        ∃ left, slice source.toList c.copiedTo (size source.toList) = .ok left) := by
  have hat : start.At source.toList [] [] [] source.toList := ⟨rfl, rfl, rfl, rfl⟩
  have hstage : start.finish source.toList = (Stage.ofSource source).mapError .declaration := by
    rw [finish_eq hat (.inl rfl), Stage.ofSource]
    show stage start [] (scan .start source.toList) = _
    unfold stage
    cases Piece.declarations (scan .start source.toList) <;> rfl
  have hslice : start.finish source.toList ≠ .error .slice := by
    rw [hstage]
    intro hfault
    cases hsource : Stage.ofSource source with
    | error e =>
      rw [hsource] at hfault
      cases hfault
    | ok stage =>
      rw [hsource] at hfault
      cases hfault
  refine ⟨hstage, fun n c hreach => ?_⟩
  obtain ⟨hordered, hturns⟩ := hreach.ordered
  have hfinish := hreach.finish_eq
  refine ⟨hturns, hordered, fun hc => ⟨fun hstep => ?_, fun c' => turn_of_step hc⟩, fun hend => ?_⟩
  · exact hslice (hfinish.symm.trans (finish_of_step_eq_error hc hstep))
  · rw [finish_of_le hend.ge] at hfinish
    rcases slice_eq_or source.toList c.copiedTo (size source.toList) with hleft | hleft
    · exact hleft
    · rw [hleft] at hfinish
      exact absurd hfinish.symm hslice

end Cursor

end ForwardShading.Glsl
