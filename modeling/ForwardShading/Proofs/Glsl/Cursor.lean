import ForwardShading.Proofs.Glsl.Seams
import ForwardShading.Proofs.Text.Octets

/-!
# Scanning with a cursor

A stage text can be scanned with a cursor that goes by octets, searches ahead by octets and cuts
slices out of the text.  Every turn of its loop takes the cursor on and keeps the offsets in order
(`Cursor.turn_of_step`), so the loop ends.
-/

namespace ForwardShading.Glsl

open Text

namespace Lexeme

variable {lineStart : Bool} {c : Char} {cs : List Char}

theorem isWordStart_of_classify (h : classify lineStart c cs = .word) : isWordStart c = true := by
  unfold classify at h
  split_ifs at h with _ _ _ _ _ hword
  exact hword

theorem ne_newline_of_classify (h : classify lineStart c cs ≠ .newline) : c ≠ '\n' := by
  rintro rfl
  exact h rfl

end Lexeme

/-- What stops a cursor: a slice that cannot be cut out, or the error of a declaration. -/
inductive ScanFault
  | slice
  | declaration (e : DeclarationError)
  deriving DecidableEq, Repr

/-- The state of a scan.  All positions are octet offsets. -/
structure Cursor where
  position : Nat
  /-- The text in front of this offset is in the residual or has been taken out. -/
  copiedTo : Nat
  /-- The offset behind the last newline or the last statement. -/
  indentStart : Nat
  point : Position
  residual : List Char
  /-- Whether the residual has the marker line. -/
  marked : Bool
  declarations : List Declaration
  deriving DecidableEq, Repr

namespace Cursor

/-- The cursor in front of a text. -/
def start : Cursor :=
  ⟨0, 0, 0, .start, [], false, []⟩

/-! ## The loop -/

section Loop

variable (source : List Char)

/-- The text between two positions, which have to be those of characters. -/
def slice (start stop : Nat) : Except ScanFault (List Char) :=
  match slice? source start stop with
  | some inside => .ok inside
  | none => .error .slice

/-- The offset of the first octet `b` from an offset on, which has to be that of a slice. -/
def find (b : Char) (start : Nat) : Except ScanFault (Option Nat) := do
  let _ ← slice source start (size source)
  return (breakAt b ((octets source).drop start)).map fun (before, _) => start + before.length

/-- The offset behind the octets from an offset on of which `f` holds. -/
def skip (f : Char → Bool) (start : Nat) : Nat :=
  start + (((octets source).drop start).takeWhile f).length

/-- The position behind semicolons, blanks and at most one newline. -/
def skipTerminator (semicolon : Nat) : Nat :=
  let stop := skip source isBlank (skip source (· == ';') semicolon)
  if (octets source)[stop]? = some '\n' then stop + 1 else stop

/-- Goes on behind a word that begins no statement. -/
def pass (c : Cursor) (stop : Nat) : Cursor :=
  { c with position := stop, point := { c.point with lineStart := false } }

/-- Goes on behind a statement, with the text in front of it copied to the residual. -/
def remove (c : Cursor) (kept : List Char) (d : Declaration) (stop : Nat) : Cursor where
  position := stop
  copiedTo := stop
  indentStart := stop
  point := { c.point with lineStart := true }
  residual := c.residual ++ kept ++ (if c.marked then [] else marker ++ ['\n'])
  marked := true
  declarations := c.declarations ++ [d]

/-- A turn of the loop at a keyword that ends at `stop`, where a statement may begin. -/
def stepStatement (c : Cursor) (k : Keyword) (stop : Nat) : Except ScanFault Cursor := do
  match ← find source ';' stop with
  | none =>
    let line ← slice source c.position (size source)
    throw (.declaration (.malformed (String.ofList (trim line))))
  | some semicolon =>
    let body ← slice source stop semicolon
    if '{' ∈ body then
      return c.pass stop
    else
      let d ← (Statement.declaration ⟨[], k, body, []⟩).mapError .declaration
      let kept ← slice source c.copiedTo c.indentStart
      return c.remove kept d (skipTerminator source semicolon)

/-- A turn of the loop at the first octet of a word. -/
def stepWord (c : Cursor) : Except ScanFault Cursor := do
  let stop := skip source isWordChar c.position
  match Keyword.ofWord? (← slice source c.position stop) with
  | none => return c.pass stop
  | some k =>
    if (k = .out → c.point.braces = 0) ∧ c.point.lineStart ∧ c.point.parens = 0 ∧
        (octets source)[stop]?.any isSpace then
      c.stepStatement source k stop
    else
      return c.pass stop

/-- The offset behind a block comment, of which the text from `start` on is `inside`. -/
def commentEnd (start : Nat) (inside : List Char) : Nat :=
  match breakOn ['*', '/'] inside with
  | none => size source
  | some (before, _) => start + size before + 2

/-- A turn of the loop. -/
def step (c : Cursor) : Except ScanFault Cursor :=
  match (octets source).drop c.position with
  | [] => return c
  | b :: bs =>
    let k := Lexeme.classify c.point.lineStart b bs
    let moved (stop : Nat) : Cursor := { c with position := stop, point := c.point.after b k }
    match k with
    | .newline => return { moved (c.position + 1) with indentStart := c.position + 1 }
    | .blank | .mark => return moved (c.position + 1)
    | .lineComment | .directive => do
      let stop ← find source '\n' c.position
      return moved (stop.getD (size source))
    | .blockComment => do
      let inside ← slice source (c.position + 2) (size source)
      return moved (commentEnd source (c.position + 2) inside)
    | .word => c.stepWord source

end Loop

/-! ## The order of offsets -/

/-- A count stays, or goes up or down by one. -/
def CountsOn (n n' : Nat) : Prop :=
  n' = n ∨ n' = n + 1 ∨ n' + 1 = n

theorem CountsOn.le_add_one {n n' : Nat} (h : CountsOn n n') : n' ≤ n + 1 := by
  unfold CountsOn at h
  omega

/-- What a turn of the loop does to the offsets and the counts of brackets. -/
structure Turn (source : List Char) (c c' : Cursor) : Prop where
  advances : c.position < c'.position
  inside : c'.position ≤ size source
  offsets : c'.copiedTo = c.copiedTo ∧ c'.indentStart = c.indentStart ∨
    c'.copiedTo = c.copiedTo ∧ c'.indentStart = c'.position ∨
    c'.copiedTo = c'.position ∧ c'.indentStart = c'.position
  braces : CountsOn c.point.braces c'.point.braces
  parens : CountsOn c.point.parens c'.point.parens

theorem countsOn_after (p : Position) (c : Char) (k : Lexeme) :
    CountsOn p.braces (p.after c k).braces ∧ CountsOn p.parens (p.after c k).parens := by
  have hsub : ∀ n, CountsOn n (n - 1) := by
    intro n
    unfold CountsOn
    omega
  cases k with
  | newline | blank | lineComment | directive | blockComment | word => exact ⟨.inl rfl, .inl rfl⟩
  | mark =>
    show CountsOn p.braces (p.bracket c).braces ∧ CountsOn p.parens (p.bracket c).parens
    unfold Position.bracket
    split
    · exact ⟨.inr (.inl rfl), .inl rfl⟩
    · exact ⟨hsub _, .inl rfl⟩
    · exact ⟨.inl rfl, .inr (.inl rfl)⟩
    · exact ⟨.inl rfl, hsub _⟩
    · exact ⟨.inl rfl, .inl rfl⟩

section Order

variable {source inside bs : List Char} {c c' : Cursor} {first stop n : Nat} {b : Char}
  {f : Char → Bool}

theorem slice_eq_ok : slice source first stop = .ok inside ↔
    ∃ before after, source = before ++ inside ++ after ∧ size before = first ∧
      size (before ++ inside) = stop := by
  rw [← slice?_eq_some, slice]
  cases slice? source first stop <;> simp

theorem slice_eq_or (source : List Char) (first stop : Nat) :
    (∃ inside, slice source first stop = .ok inside) ∨ slice source first stop = .error .slice := by
  unfold slice
  cases slice? source first stop with
  | none => exact .inr rfl
  | some inside => exact .inl ⟨inside, rfl⟩

theorem length_octets (cs : List Char) : (octets cs).length = size cs :=
  rfl

theorem getElem?_of_drop (h : (octets source).drop first = b :: bs) :
    (octets source)[first]? = some b := by
  rw [← List.head?_drop, h]
  rfl

theorem lt_of_getElem? (h : (octets source)[first]? = some b) : first < size source :=
  (List.getElem?_eq_some_iff.1 h).1

theorem of_find (h : find source b first = .ok (some n)) :
    first ≤ n ∧ (octets source)[n]? = some b := by
  obtain ⟨rest, -, h⟩ := bind_eq_ok.1 h
  obtain ⟨⟨before, after⟩, hbreak, rfl⟩ := Option.map_eq_some_iff.1 (Except.ok.inj h)
  refine ⟨Nat.le_add_right _ _, ?_⟩
  rw [← List.getElem?_drop, append_of_breakAt hbreak]
  simp

theorem le_skip (source : List Char) (f : Char → Bool) (first : Nat) : first ≤ skip source f first :=
  Nat.le_add_right _ _

theorem skip_le (h : first ≤ size source) : skip source f first ≤ size source := by
  have htake := (List.takeWhile_sublist f (l := (octets source).drop first)).length_le
  rw [List.length_drop, length_octets] at htake
  unfold skip
  omega

theorem lt_skip (h : (octets source).drop first = b :: bs) (hb : f b = true) :
    first < skip source f first := by
  rw [skip, h, List.takeWhile_cons_of_pos hb, List.length_cons]
  omega

theorem skipTerminator_bounds (h : (octets source)[first]? = some ';') :
    first < skipTerminator source first ∧ skipTerminator source first ≤ size source := by
  obtain ⟨bs, hbs⟩ : ∃ bs, (octets source).drop first = ';' :: bs := by
    rw [← List.head?_drop] at h
    exact List.head?_eq_some_iff.1 h
  have hlt := lt_skip hbs (f := (· == ';')) rfl
  have hle := le_skip source isBlank (skip source (· == ';') first)
  have hsize : skip source isBlank (skip source (· == ';') first) ≤ size source :=
    skip_le (skip_le (lt_of_getElem? h).le)
  simp only [skipTerminator]
  split_ifs with hnewline
  · have hstop := lt_of_getElem? hnewline
    omega
  · omega

theorem commentEnd_bounds (h : slice source first (size source) = .ok inside) :
    first ≤ commentEnd source first inside ∧ commentEnd source first inside ≤ size source := by
  obtain ⟨before, after, rfl, hbefore, hsize⟩ := slice_eq_ok.1 h
  rw [size_append] at hsize
  unfold commentEnd
  split
  · omega
  · rename_i front rest hclosed
    have hlength := congrArg size (append_of_breakOn hclosed)
    have hmark : size ['*', '/'] = 2 := rfl
    simp only [size_append, hmark] at hlength hsize ⊢
    omega

theorem turn_pass (h : c.position < stop) (hstop : stop ≤ size source) :
    c.Turn source (c.pass stop) where
  advances := h
  inside := hstop
  offsets := .inl ⟨rfl, rfl⟩
  braces := .inl rfl
  parens := .inl rfl

theorem turn_remove (kept : List Char) (d : Declaration) (h : c.position < stop)
    (hstop : stop ≤ size source) : c.Turn source (c.remove kept d stop) where
  advances := h
  inside := hstop
  offsets := .inr (.inr ⟨rfl, rfl⟩)
  braces := .inl rfl
  parens := .inl rfl

theorem turn_stepStatement {k : Keyword} (hlt : c.position < stop) (hstop : stop ≤ size source)
    (h : c.stepStatement source k stop = .ok c') : c.Turn source c' := by
  obtain ⟨found, hfound, h⟩ := bind_eq_ok.1 h
  cases found with
  | none =>
    obtain ⟨line, -, h⟩ := bind_eq_ok.1 h
    cases h
  | some semicolon =>
    obtain ⟨body, -, h⟩ := bind_eq_ok.1 h
    split_ifs at h
    · cases h
      exact turn_pass hlt hstop
    · obtain ⟨d, -, h⟩ := bind_eq_ok.1 h
      obtain ⟨kept, -, h⟩ := bind_eq_ok.1 h
      cases h
      obtain ⟨hfirst, hmark⟩ := of_find hfound
      obtain ⟨hbehind, hend⟩ := skipTerminator_bounds hmark
      exact turn_remove kept d (by omega) hend

theorem turn_stepWord (hdrop : (octets source).drop c.position = b :: bs) (hb : isWordChar b = true)
    (h : c.stepWord source = .ok c') : c.Turn source c' := by
  have hlt := lt_skip hdrop hb
  have hle : skip source isWordChar c.position ≤ size source :=
    skip_le (lt_of_getElem? (getElem?_of_drop hdrop)).le
  obtain ⟨w, -, h⟩ := bind_eq_ok.1 h
  split at h
  · cases h
    exact turn_pass hlt hle
  · split_ifs at h
    · exact turn_stepStatement hlt hle h
    · cases h
      exact turn_pass hlt hle

theorem turn_moved (k : Lexeme) (h : c.position < stop) (hstop : stop ≤ size source)
    (hindent : n = c.indentStart ∨ n = stop) :
    c.Turn source { c with position := stop, indentStart := n, point := c.point.after b k } where
  advances := h
  inside := hstop
  offsets := by
    rcases hindent with rfl | rfl
    · exact .inl ⟨rfl, rfl⟩
    · exact .inr (.inl ⟨rfl, rfl⟩)
  braces := (countsOn_after c.point b k).1
  parens := (countsOn_after c.point b k).2

/-- Every turn takes the cursor on. -/
theorem turn_of_step (hc : c.position < size source) (h : c.step source = .ok c') :
    c.Turn source c' := by
  cases hdrop : (octets source).drop c.position with
  | nil =>
    rw [List.drop_eq_nil_iff, length_octets] at hdrop
    omega
  | cons b bs =>
    simp only [step, hdrop] at h
    cases hk : Lexeme.classify c.point.lineStart b bs with
    | newline =>
      rw [hk] at h
      cases h
      exact turn_moved .newline (Nat.lt_succ_self _) hc (.inr rfl)
    | blank | mark =>
      rw [hk] at h
      cases h
      exact turn_moved _ (Nat.lt_succ_self _) hc (.inl rfl)
    | lineComment | directive =>
      rw [hk] at h
      obtain ⟨found, hfound, h⟩ := bind_eq_ok.1 h
      cases h
      cases found with
      | none => exact turn_moved _ hc le_rfl (.inl rfl)
      | some n =>
        obtain ⟨hle, hn⟩ := of_find hfound
        refine turn_moved _ (lt_of_le_of_ne hle ?_) (lt_of_getElem? hn).le (.inl rfl)
        -- The cursor does not stand at the newline.
        rintro rfl
        rw [getElem?_of_drop hdrop] at hn
        exact Lexeme.ne_newline_of_classify (by rw [hk]; decide) (Option.some.inj hn)
    | blockComment =>
      rw [hk] at h
      obtain ⟨inside, hinside, h⟩ := bind_eq_ok.1 h
      cases h
      obtain ⟨hfirst, hend⟩ := commentEnd_bounds hinside
      exact turn_moved _ (by omega) hend (.inl rfl)
    | word =>
      rw [hk] at h
      exact turn_stepWord hdrop (isWordChar_of_isWordStart (Lexeme.isWordStart_of_classify hk)) h

end Order

/-! ## Runs -/

section Runs

variable (source : List Char)

/-- Runs the loop to its end. -/
def run (c : Cursor) : Except ScanFault Cursor :=
  if hc : c.position < size source then
    match h : c.step source with
    | .ok c' =>
      have := (turn_of_step hc h).advances
      run c'
    | .error e => .error e
  else
    .ok c
termination_by size source - c.position

/-- Runs the loop to its end, and copies the text left to the residual. -/
def finish (c : Cursor) : Except ScanFault Stage := do
  let last ← c.run source
  let left ← slice source last.copiedTo (size source)
  return ⟨String.ofList (last.residual ++ left), last.declarations⟩

end Runs

section Steps

variable {source : List Char} {c : Cursor}

theorem finish_of_step_eq_ok {c' : Cursor} (hc : c.position < size source)
    (h : c.step source = .ok c') : c.finish source = c'.finish source := by
  have hrun : c.run source = c'.run source := by
    rw [run, dif_pos hc]
    split <;> simp_all
  rw [finish, finish, hrun]

theorem finish_of_step_eq_error {e : ScanFault} (hc : c.position < size source)
    (h : c.step source = .error e) : c.finish source = .error e := by
  have hrun : c.run source = .error e := by
    rw [run, dif_pos hc]
    split <;> simp_all
  rw [finish, hrun]
  rfl

theorem finish_of_le (hc : size source ≤ c.position) :
    c.finish source = (fun left => ⟨String.ofList (c.residual ++ left), c.declarations⟩) <$>
      slice source c.copiedTo (size source) := by
  rw [finish, run, dif_neg (Nat.not_lt.2 hc)]
  show (slice source c.copiedTo (size source) >>= _) = _
  cases slice source c.copiedTo (size source) <;> rfl

/-! ## Reachable cursors -/

/-- The cursors that a run comes by, after a number of turns. -/
inductive Reaches (source : List Char) : Nat → Cursor → Prop
  | start : Reaches source 0 start
  | turn {n : Nat} {c c' : Cursor} (h : Reaches source n c) (hc : c.position < size source)
      (hstep : c.step source = .ok c') : Reaches source (n + 1) c'

/-- The offsets of a cursor are in order, and its counts of brackets are no larger than they. -/
structure Ordered (source : List Char) (c : Cursor) : Prop where
  copiedTo_le : c.copiedTo ≤ c.indentStart
  indentStart_le : c.indentStart ≤ c.position
  position_le : c.position ≤ size source
  braces_le : c.point.braces ≤ c.position
  parens_le : c.point.parens ≤ c.position

theorem Turn.ordered {c' : Cursor} (h : c.Turn source c') (hc : c.Ordered source) :
    c'.Ordered source := by
  have hadvances := h.advances
  have hcopied := hc.copiedTo_le
  have hindent := hc.indentStart_le
  have hoffsets := h.offsets
  have hbraces := h.braces.le_add_one.trans (Nat.succ_le_succ hc.braces_le)
  have hparens := h.parens.le_add_one.trans (Nat.succ_le_succ hc.parens_le)
  exact ⟨by omega, by omega, h.inside, by omega, by omega⟩

theorem Reaches.ordered {n : Nat} (h : Reaches source n c) : c.Ordered source ∧ n ≤ c.position := by
  induction h with
  | start => exact ⟨⟨le_rfl, le_rfl, Nat.zero_le _, le_rfl, le_rfl⟩, le_rfl⟩
  | turn _ hc hstep ih =>
    have hturn := turn_of_step hc hstep
    exact ⟨hturn.ordered ih.1, Nat.succ_le_of_lt (ih.2.trans_lt hturn.advances)⟩

theorem Reaches.finish_eq {n : Nat} (h : Reaches source n c) :
    c.finish source = Cursor.start.finish source := by
  induction h with
  | start => rfl
  | turn _ hc hstep ih => rw [← finish_of_step_eq_ok hc hstep, ih]

end Steps

end Cursor

end ForwardShading.Glsl
