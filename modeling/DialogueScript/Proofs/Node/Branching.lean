import DialogueScript.Node.Branching
import DialogueScript.Proofs.Node.Menu
/-!
# Branchings are read back

The state of a reader inside a chain is the branches that are finished and the one that is open. The line
that opens a branch finishes the one in front of it; a directive names it; what it says and its jump fill it.
The kinds of the branches obey one rule, on the written chain as in the reader: the first one opens the chain,
no other does, and nothing but the end follows the last resort.

Results:
* `Branching.Sound`: what every branching that was read is like, and all that a branching has to be like to be
  read back.
* `read_lines`: a sound branching is read back.
* `sound_of_read`: a branching that was read is sound.
-/
namespace DialogueScript

/-- What can follow the first branch of a chain. -/
def BranchKind.isTail : List BranchKind → Prop
  | [] => True
  | .ifThen :: _ => False
  | .elseIf :: ks => isTail ks
  | .orElse :: ks => ks = []

/-- A chain of branches. -/
def BranchKind.isChain : List BranchKind → Prop
  | .ifThen :: ks => isTail ks
  | _ => False

theorem BranchKind.isTail_of_isTail_cons {k : BranchKind} {ks : List BranchKind} (h : isTail (k :: ks)) :
    isTail ks := by
  cases k with
  | ifThen => cases h
  | elseIf => exact h
  | orElse => rw [show ks = [] from h]; exact True.intro

theorem BranchKind.isTail_of_isChain_cons {k : BranchKind} {ks : List BranchKind} (h : isChain (k :: ks)) :
    isTail ks := by
  cases k with
  | ifThen => exact h
  | elseIf => cases h
  | orElse => cases h

/-- A branch of this kind can stand behind branches of these kinds. -/
def BranchKind.canFollow (ks : List BranchKind) (k : BranchKind) : Prop :=
  ks = [] ∧ k = .ifThen ∨ k ≠ .ifThen ∧ ∃ n, ks = .ifThen :: List.replicate n .elseIf

theorem BranchKind.isChain_of_canFollow {ks : List BranchKind} {k : BranchKind} (h : canFollow ks k) :
    isChain (ks ++ [k]) := by
  rcases h with ⟨rfl, rfl⟩ | ⟨hk, n, rfl⟩
  · exact True.intro
  · show isTail (List.replicate n .elseIf ++ [k])
    induction n with
    | zero => cases k <;> first | exact absurd rfl hk | exact True.intro | exact rfl
    | succ n ih => exact ih

theorem BranchKind.isTail_replicate (n : Nat) : isTail (List.replicate n .elseIf) := by
  induction n with
  | zero => exact True.intro
  | succ n ih => exact ih

theorem BranchKind.replicate_of_isTail {ks : List BranchKind} {k : BranchKind} (h : isTail (ks ++ [k])) :
    k ≠ .ifThen ∧ ∃ n, ks = List.replicate n .elseIf := by
  induction ks with
  | nil => exact ⟨by rintro rfl; exact h, 0, rfl⟩
  | cons k' ks ih =>
    cases k' with
    | ifThen => cases h
    | elseIf =>
      obtain ⟨hk, n, rfl⟩ := ih h
      exact ⟨hk, n + 1, rfl⟩
    | orElse => exact absurd h (by simp [isTail])

theorem BranchKind.canFollow_of_isChain {ks : List BranchKind} {k : BranchKind} (h : isChain (ks ++ [k])) :
    canFollow ks k := by
  cases ks with
  | nil =>
    cases k with
    | ifThen => exact .inl ⟨rfl, rfl⟩
    | elseIf => cases h
    | orElse => cases h
  | cons k' ks =>
    cases k' with
    | ifThen =>
      obtain ⟨hk, n, rfl⟩ := replicate_of_isTail h
      exact .inr ⟨hk, n, rfl⟩
    | elseIf => cases h
    | orElse => cases h

theorem BranchKind.canFollow_append {ks : List BranchKind} {k k' : BranchKind} (h : canFollow ks k) (hk : k ≠ .orElse)
    (hk' : k' ≠ .ifThen) : canFollow (ks ++ [k]) k' := by
  rcases h with ⟨rfl, rfl⟩ | ⟨hk1, n, rfl⟩
  · exact .inr ⟨hk', 0, rfl⟩
  · obtain rfl : k = .elseIf := by cases k <;> simp_all
    exact .inr ⟨hk', n + 1, by rw [List.replicate_succ']; rfl⟩

namespace Branch

/-- The last resort has no condition, any other branch has conditions that can be written. -/
def isGuarded (kind : BranchKind) (condition : Option (List Condition)) : Prop :=
  kind = .orElse ∧ condition = none ∨
    kind ≠ .orElse ∧ ∃ cs, condition = some cs ∧ cs ≠ [] ∧ ∀ c ∈ cs, c.Writable

/-- An id, a guard that suits the kind, and well-formed names. -/
structure Sound (b : Branch) : Prop where
  id : b.id ≠ []
  guard : isGuarded b.kind b.condition
  speaker : ∀ s ∈ b.speaker, Text.isSpeaker s
  next : ∀ t ∈ b.next, Text.isNodeId t

theorem writable_conditions {b : Branch} (h : b.Sound) : ∀ c ∈ b.conditions, c.Writable := by
  rcases h.guard with ⟨-, hn⟩ | ⟨-, cs, hs, -, hw⟩
  · simp [conditions, hn]
  · simpa [conditions, hs] using hw

/-- A guard that suits the kind makes a branch. -/
theorem make_of_isGuarded {kind : BranchKind} {condition : Option (List Condition)} (h : isGuarded kind condition)
    (id content : Text) : make id kind condition content = .ok ⟨id, kind, condition, content, none, none⟩ := by
  rcases h with ⟨rfl, rfl⟩ | ⟨hk, cs, rfl, hne, -⟩
  · rfl
  · cases cs with
    | nil => exact absurd rfl hne
    | cons c cs => cases kind <;> first | rfl | exact absurd rfl hk

end Branch

namespace Branching

structure Sound (b : Branching) : Prop where
  chain : BranchKind.isChain (b.branches.map (·.kind))
  sound : ∀ r ∈ b.branches, r.Sound

/-! ## Written lines -/

def blockDirective (id : Text) : Directive := ⟨blockName, [("id".toList, id)]⟩

theorem isWritable_blockDirective (id : Text) : (blockDirective id).isWritable := by
  rw [Directive.isWritable_iff]
  refine ⟨(by decide : Text.isAttributeKey blockName), ?_⟩
  intro a ha
  rw [List.mem_singleton.1 ha]
  exact (by decide : Text.isAttributeKey "id".toList)

/-- The lines inside a branch without indentation. -/
def innerLines (b : Branch) : List Text :=
  Directive.line (blockDirective b.id) :: (Layout.spokenLines b.speaker b.content ++ Layout.jumpLines b.next)

/-- The lines of a branch without indentation. -/
def trimmedLines (b : Branch) : List Text := openingLine b :: innerLines b

theorem openingLine_cases (b : Branch) :
    b.kind = .orElse ∧ openingLine b = "<<else>>".toList ∨
      b.kind ≠ .orElse ∧ openingLine b = Layout.guardLine b.kind.keyword b.conditions := by
  unfold openingLine
  split
  · next h => exact .inl ⟨h, rfl⟩
  · next h => exact .inr ⟨h, rfl⟩

theorem trim_openingLine (b : Branch) : Text.trim (openingLine b) = openingLine b := by
  rcases openingLine_cases b with ⟨-, h⟩ | ⟨-, h⟩ <;> rw [h]
  · decide
  · exact Layout.trim_guardLine _ _

theorem head_openingLine (b : Branch) : ∃ r, openingLine b = '<' :: r := by
  rcases openingLine_cases b with ⟨-, h⟩ | ⟨-, h⟩ <;> rw [h]
  · exact ⟨_, rfl⟩
  · exact ⟨_, Layout.guardLine_eq _ _⟩

theorem isBodyLine_openingLine {b : Branch} (h : b.Sound) : Layout.isBodyLine (openingLine b) := by
  rcases openingLine_cases b with ⟨-, he⟩ | ⟨-, he⟩ <;> rw [he]
  · refine ⟨?_, ?_, ?_⟩ <;> decide
  · refine Layout.isBodyLine_guardLine ?_ (Branch.writable_conditions h)
    cases b.kind <;> exact Text.not_blank_of_all (by decide)

theorem map_trim_branchLines {b : Branch} (h : b.Sound) : (branchLines b).map Text.trim = trimmedLines b := by
  show List.map Text.trim (_ :: Layout.indented (Directive.line (blockDirective b.id) :: (_ ++ _))) = _
  rw [List.map_cons, Layout.map_trim_indented, List.map_cons, List.map_append,
    Layout.map_trim_spokenLines h.speaker, Layout.map_trim_jumpLines, trim_openingLine,
    Directive.trim_line (isWritable_blockDirective b.id)]
  rfl

theorem isBodyLine_branchLines {b : Branch} (h : b.Sound) : ∀ l ∈ branchLines b, Layout.isBodyLine l := by
  intro l hl
  rcases List.mem_cons.1 hl with rfl | hl
  · exact isBodyLine_openingLine h
  · refine Layout.isBodyLine_indented ?_ l hl
    intro k hk
    rcases List.mem_cons.1 hk with rfl | hk
    · exact Layout.isBodyLine_directive (isWritable_blockDirective b.id)
    rcases List.mem_append.1 hk with hk | hk
    · exact Layout.isBodyLine_spokenLines h.speaker _ k hk
    · exact Layout.isBodyLine_jumpLines h.next k hk

theorem branches_ne_nil {b : Branching} (h : b.Sound) : b.branches ≠ [] := by
  intro hn
  have := h.chain
  rw [hn] at this
  exact this

theorem lines_eq {b : Branching} (h : b.Sound) : b.lines = b.branches.flatMap branchLines ++ [Layout.endIfLine] := by
  have hne : b.branches.isEmpty = false := by simpa using branches_ne_nil h
  simp [lines, hne]

theorem map_trim_lines {b : Branching} (h : b.Sound) :
    b.lines.map Text.trim = b.branches.flatMap trimmedLines ++ [Layout.endIfLine] := by
  rw [lines_eq h, List.map_append, List.map_flatMap, List.flatMap_def, List.flatMap_def,
    List.map_congr_left fun r hr => map_trim_branchLines (h.sound r hr)]
  rfl

theorem isBodyLine_lines {b : Branching} (h : b.Sound) : ∀ l ∈ b.lines, Layout.isBodyLine l := by
  intro l hl
  rw [lines_eq h] at hl
  rcases List.mem_append.1 hl with hl | hl
  · obtain ⟨r, hr, hl⟩ := List.mem_flatMap.1 hl
    exact isBodyLine_branchLines (h.sound r hr) l hl
  · rw [List.mem_singleton.1 hl]; exact Layout.isBodyLine_endIf

/-! ## Reading the lines of one branch -/

variable {ctx : Node.Context}

/-- Inside of a chain, with these branches finished and this one open, wherever its opening line stands. -/
def Inside (done : List Branch) (b : OpenBranch) (p : Progress) : Prop :=
  ∃ n, p = ⟨done, some { b with line := n }, true, false⟩

theorem step_command {done : List Branch} {current : Option OpenBranch} {isBegun : Bool} {l : Text} {c : Line.Command}
    (hl : ∃ r, l = '<' :: r) (h : Line.command? l = some c) (n : Nat) :
    Progress.step ctx ⟨done, current, isBegun, false⟩ ⟨n, l⟩ =
      Progress.readCommand ctx ⟨done, current, isBegun, false⟩ ⟨n, l⟩ c := by
  obtain ⟨r, rfl⟩ := hl
  simp only [Progress.step, Bool.false_eq_true, if_false, Line.directive?_of_ne (show '<' ≠ '/' by decide), h]

theorem takes_blockDirective {id : Text} (h : id ≠ []) (done : List Branch) (kind : BranchKind)
    (condition : Option (List Condition)) :
    Takes (Progress.step ctx) (Inside done (.start 0 kind condition)) [Directive.line (blockDirective id)]
      (Inside done ⟨0, some id, kind, condition, none, false, [], none⟩) := by
  apply Takes.line
  rintro p n ⟨k, rfl⟩
  refine ⟨_, ?_, k, rfl⟩
  obtain ⟨c, r, rfl⟩ := List.exists_cons_of_ne_nil h
  simp only [Progress.step, Bool.false_eq_true, if_false, Directive.directive?_line (isWritable_blockDirective _)]
  rfl

/-- A line that is neither a comment, a choice nor a command is said by the open branch. -/
theorem step_content {l : Text} (h : ∃ c r, l = c :: r ∧ Line.isProse c) {done : List Branch} {b : OpenBranch}
    (hb : b.next = none) (n : Nat) :
    Progress.step ctx ⟨done, some b, true, false⟩ ⟨n, l⟩ =
      .ofExcept ((b.addContent ⟨n, l⟩).map fun b => ⟨done, some b, true, false⟩) := by
  obtain ⟨c, r, rfl, hp⟩ := h
  simp only [Progress.step, Bool.false_eq_true, if_false, Line.directive?_of_ne hp.1, Line.command?_of_ne hp.2.2.1,
    Line.isComment_of_ne hp.1, Line.choice?_of_ne hp.2.1, Option.isSome_none]
  show Reading.ofExcept (if b.next.isSome then _ else _) = _
  rw [hb]
  rfl

theorem takes_spoken {who : Text} (hw : Text.isSpeaker who) {ts : List Text} (ht : ∀ t ∈ ts, '\n' ∉ t)
    (done : List Branch) (id : Option Text) (kind : BranchKind) (condition : Option (List Condition)) (c : List Text) :
    Takes (Progress.step ctx) (Inside done ⟨0, id, kind, condition, some who, false, c, none⟩)
      (ts.map (Line.spoken who)) (Inside done ⟨0, id, kind, condition, some who, false, c ++ ts, none⟩) := by
  induction ts generalizing c with
  | nil => exact Takes.nil fun p hp => by rw [List.append_nil]; exact hp
  | cons t ts ih =>
    have hrest := ih (fun u hu => ht u (by simp [hu])) (c ++ [t])
    rw [List.append_assoc, List.singleton_append] at hrest
    refine Takes.cons ?_ hrest
    rintro p n ⟨k, rfl⟩
    refine ⟨_, ?_, k, rfl⟩
    rw [step_content (Line.head_spoken hw t) rfl]
    simp only [OpenBranch.addContent, Line.dialogue?_spoken hw (ht t (by simp)), Bool.false_eq_true, if_false, if_true]
    rfl

/-- The first line of dialogue decides the speaker. -/
theorem takes_spokenBy {who : Text} (hw : Text.isSpeaker who) (content : Text) (done : List Branch) (id : Option Text)
    (kind : BranchKind) (condition : Option (List Condition)) :
    Takes (Progress.step ctx) (Inside done ⟨0, id, kind, condition, none, false, [], none⟩)
      (Layout.spokenLines (some who) content)
      (Inside done ⟨0, id, kind, condition, some who, false, Text.pieces content, none⟩) := by
  have hpieces : ∀ t ∈ Text.pieces content, '\n' ∉ t := fun t ht => Text.newline_not_mem_of_mem_pieces ht
  unfold Layout.spokenLines
  cases hp : Text.pieces content with
  | nil => exact absurd hp (Text.pieces_ne_nil content)
  | cons t ts =>
    rw [hp] at hpieces
    refine Takes.cons ?_ (takes_spoken hw (fun u hu => hpieces u (by simp [hu])) done id kind condition [t])
    rintro p n ⟨k, rfl⟩
    refine ⟨_, ?_, k, rfl⟩
    rw [step_content (Line.head_spoken hw t) rfl]
    simp only [OpenBranch.addContent, Line.dialogue?_spoken hw (hpieces t (by simp)), Bool.false_eq_true, if_false]
    rfl

theorem takes_narrated (ts : List Text) (done : List Branch) (id : Option Text) (kind : BranchKind)
    (condition : Option (List Condition)) (c : List Text) :
    Takes (Progress.step ctx) (fun p => ∃ nar, Inside done ⟨0, id, kind, condition, none, nar, c, none⟩ p)
      (ts.map Line.narrated) (fun p => ∃ nar, Inside done ⟨0, id, kind, condition, none, nar, c ++ ts, none⟩ p) := by
  induction ts generalizing c with
  | nil => exact Takes.nil fun p hp => by rw [List.append_nil]; exact hp
  | cons t ts ih =>
    have hrest := ih (c ++ [t])
    rw [List.append_assoc, List.singleton_append] at hrest
    refine Takes.cons ?_ hrest
    rintro p n ⟨nar, k, rfl⟩
    refine ⟨_, ?_, true, k, rfl⟩
    rw [step_content (Line.head_narrated t) rfl]
    simp only [OpenBranch.addContent, Line.dialogue?_narrated, Option.isSome_none, Bool.false_eq_true, if_false,
      Line.unescape_narrated]
    rfl

/-- A branch is open of which everything up to its jump was read. -/
def Filled (done : List Branch) (b : Branch) (next : Option Text) (p : Progress) : Prop :=
  ∃ nar ts, Text.joinLines ts = b.content ∧
    Inside done ⟨0, some b.id, b.kind, b.condition, b.speaker, nar, ts, next⟩ p

theorem takes_spokenLines {b : Branch} (h : b.Sound) (done : List Branch) :
    Takes (Progress.step ctx) (Inside done ⟨0, some b.id, b.kind, b.condition, none, false, [], none⟩)
      (Layout.spokenLines b.speaker b.content) (Filled done b none) := by
  intro p ls hp hls
  have hspeaker := h.speaker
  cases hs : b.speaker with
  | some who =>
    rw [hs] at hls hspeaker
    obtain ⟨q, hfold, hq⟩ := takes_spokenBy (hspeaker who rfl) b.content done _ _ _ p ls hp hls
    exact ⟨q, hfold, false, Text.pieces b.content, Text.join_pieces _, by rw [hs]; exact hq⟩
  | none =>
    rw [hs] at hls
    simp only [Layout.spokenLines] at hls
    split at hls
    · next hc =>
      obtain rfl := List.map_eq_nil_iff.1 hls
      exact ⟨p, rfl, false, [], (List.isEmpty_iff.1 hc).symm, by rw [hs]; exact hp⟩
    · obtain ⟨q, hfold, nar, hq⟩ := takes_narrated (Text.pieces b.content) done _ _ _ [] p ls ⟨false, hp⟩ hls
      rw [List.nil_append] at hq
      exact ⟨q, hfold, nar, Text.pieces b.content, Text.join_pieces _, by rw [hs]; exact hq⟩

theorem takes_jumpLines {b : Branch} (h : b.Sound) (done : List Branch) :
    Takes (Progress.step ctx) (Filled done b none) (Layout.jumpLines b.next) (Filled done b b.next) := by
  cases hn : b.next with
  | none => exact Takes.nil fun p hp => hp
  | some t =>
    have ht := h.next t (by rw [hn]; rfl)
    have hcmd := Line.command?_jump ht
    unfold Layout.jumpLines
    apply Takes.line
    rintro p n ⟨nar, ts, hts, k, rfl⟩
    refine ⟨_, ?_, nar, ts, hts, k, rfl⟩
    rw [step_command ⟨_, Line.jump_eq t⟩ hcmd]
    simp only [Progress.readCommand, Progress.readJump, Node.readTarget_of_isNodeId ht]
    rfl

theorem takes_innerLines {b : Branch} (h : b.Sound) (done : List Branch) :
    Takes (Progress.step ctx) (Inside done (.start 0 b.kind b.condition)) (innerLines b) (Filled done b b.next) :=
  (takes_blockDirective h.id done b.kind b.condition).append
    ((takes_spokenLines h done).append (takes_jumpLines h done))

/-! ## Reading a chain -/

theorem finish_filled {b : Branch} (h : b.Sound) {nar : Bool} {ts : List Text} (hts : Text.joinLines ts = b.content)
    (node : Text) (n count : Nat) :
    OpenBranch.finish node count ⟨n, some b.id, b.kind, b.condition, b.speaker, nar, ts, b.next⟩ = .ok b := by
  simp only [OpenBranch.finish, Option.getD_some, Branch.make_of_isGuarded h.guard, hts]

/-- A line with a keyword finishes the open branch, unless only the end may follow. -/
theorem closeBranch_filled {b : Branch} (h : b.Sound) {done : List Branch} {nar : Bool} {ts : List Text}
    (hts : Text.joinLines ts = b.content) (k n : Nat) {keyword : Text}
    (hk : b.kind ≠ .orElse ∨ keyword = "endif".toList) :
    Progress.closeBranch ctx.node
        ⟨done, some ⟨k, some b.id, b.kind, b.condition, b.speaker, nar, ts, b.next⟩, true, false⟩ n keyword =
      .ok ⟨done ++ [b], none, true, false⟩ := by
  have hno : ¬ (b.kind = .orElse ∧ keyword ≠ "endif".toList) := fun hc => hk.elim (fun h => h hc.1) hc.2
  simp only [Progress.closeBranch, hno, if_false, finish_filled h hts]
  rfl

/-- The first branch opens the chain. -/
theorem takes_first {b : Branch} (h : b.Sound) (hk : b.kind = .ifThen) :
    Takes (Progress.step ctx) (· = .start) [openingLine b] (Inside [] (.start 0 b.kind b.condition)) := by
  apply Takes.line
  rintro p n rfl
  rcases h.guard with ⟨he, -⟩ | ⟨-, cs, hcs, hne, hw⟩
  · rw [hk] at he; cases he
  · have hline : openingLine b = Layout.guardLine "if".toList cs := by
      simp only [openingLine, hk, Branch.conditions, hcs]; rfl
    have hcmd := Layout.command?_guardLine "if".toList (by decide) (Text.not_blank_of_all (by decide)) hne hw
    refine ⟨_, ?_, n, rfl⟩
    rw [hline]
    show Progress.step ctx ⟨[], none, false, false⟩ _ = _
    rw [step_command ⟨_, Layout.guardLine_eq _ cs⟩ hcmd]
    show (Node.readConditions ctx n (Condition.joined cs)).andThen _ = _
    rw [Node.readConditions_joined ctx n hw, Reading.ok_andThen, hk, hcs]
    rfl

/-- A later branch finishes the one in front of it. -/
theorem takes_later {b r : Branch} (hb : b.Sound) (hkb : b.kind ≠ .orElse) (hr : r.Sound) (hkr : r.kind ≠ .ifThen)
    (done : List Branch) : Takes (Progress.step ctx) (Filled done b b.next) [openingLine r]
      (Inside (done ++ [b]) (.start 0 r.kind r.condition)) := by
  apply Takes.line
  rintro p n ⟨nar, ts, hts, k, rfl⟩
  rcases hr.guard with ⟨hk, hc⟩ | ⟨hk, cs, hcs, hne, hw⟩
  · have hline : openingLine r = "<<else>>".toList := by simp only [openingLine, hk]
    have hcmd : Line.command? "<<else>>".toList = some .orElse := by decide
    have hhead : ∃ r, "<<else>>".toList = '<' :: r := ⟨"<else>>".toList, by decide⟩
    refine ⟨_, ?_, n, rfl⟩
    rw [hline, step_command hhead hcmd]
    simp only [Progress.readCommand, closeBranch_filled hb hts k n (.inl hkb), hk, hc]
    rfl
  · have hk' : r.kind = .elseIf := by cases hc : r.kind <;> simp_all
    have hline : openingLine r = Layout.guardLine "elseif".toList cs := by
      simp only [openingLine, hk', Branch.conditions, hcs]; rfl
    have hcmd := Layout.command?_guardLine "elseif".toList (by decide) (Text.not_blank_of_all (by decide)) hne hw
    refine ⟨_, ?_, n, rfl⟩
    rw [hline, step_command ⟨_, Layout.guardLine_eq _ cs⟩ hcmd]
    show (Reading.ofExcept (Progress.closeBranch ctx.node _ n _)).andThen _ = _
    rw [closeBranch_filled hb hts k n (.inl hkb)]
    show (Reading.ok _).andThen _ = _
    rw [Reading.ok_andThen]
    show (Node.readConditions ctx n (Condition.joined cs)).andThen _ = _
    rw [Node.readConditions_joined ctx n hw, Reading.ok_andThen, hk', hcs]
    rfl

theorem takes_end {b : Branch} (h : b.Sound) (done : List Branch) :
    Takes (Progress.step ctx) (Filled done b b.next) [Layout.endIfLine]
      (fun p => p.done = done ++ [b] ∧ p.current = none) := by
  apply Takes.line
  rintro p n ⟨nar, ts, hts, k, rfl⟩
  refine ⟨⟨done ++ [b], none, true, true⟩, ?_, rfl, rfl⟩
  rw [step_command Layout.head_endIf Layout.command?_endIf]
  simp only [Progress.readCommand, closeBranch_filled h hts k n (.inr rfl)]
  rfl

/-- From inside of a branch to the end of its chain. -/
theorem takes_chain {b : Branch} {bs : List Branch} (hb : b.Sound) (hs : ∀ r ∈ bs, r.Sound)
    (htail : BranchKind.isTail (bs.map (·.kind))) (hlast : b.kind = .orElse → bs = []) (done : List Branch) :
    Takes (Progress.step ctx) (Inside done (.start 0 b.kind b.condition))
      (innerLines b ++ (bs.flatMap trimmedLines ++ [Layout.endIfLine]))
      (fun p => p.done = done ++ b :: bs ∧ p.current = none) := by
  -- the branch in hand joins those that are finished, so both change from step to step
  induction bs generalizing b done with
  | nil => exact (takes_innerLines hb done).append (takes_end hb done)
  | cons r bs ih =>
    have hr := hs r (by simp)
    have hkb : b.kind ≠ .orElse := fun h => by cases hlast h
    have hkr : r.kind ≠ .ifThen := by
      intro h
      rw [List.map_cons, h] at htail
      exact htail
    have htail' := BranchKind.isTail_of_isTail_cons htail
    have hlast' : r.kind = .orElse → bs = [] := by
      intro h
      rw [List.map_cons, h] at htail
      exact List.map_eq_nil_iff.1 htail
    have hrest := ih hr (fun x hx => hs x (by simp [hx])) htail' hlast' (done ++ [b])
    rw [List.append_assoc, List.singleton_append] at hrest
    have hline : trimmedLines r = [openingLine r] ++ innerLines r := rfl
    rw [List.flatMap_cons, hline, List.append_assoc, List.append_assoc]
    exact (takes_innerLines hb done).append ((takes_later hb hkb hr hkr done).append hrest)

theorem takes_lines {b : Branching} (h : b.Sound) :
    Takes (Progress.step ctx) (· = .start) (b.branches.flatMap trimmedLines ++ [Layout.endIfLine])
      (fun p => p.done = b.branches ∧ p.current = none) := by
  have hchain := h.chain
  have hsound := h.sound
  cases hb : b.branches with
  | nil => exact absurd hb (branches_ne_nil h)
  | cons r bs =>
    rw [hb] at hchain hsound
    have hk : r.kind = .ifThen := by cases hk : r.kind <;> simp_all [BranchKind.isChain]
    rw [List.map_cons, hk] at hchain
    have hr := hsound r (by simp)
    have hline : trimmedLines r = [openingLine r] ++ innerLines r := rfl
    rw [List.flatMap_cons, hline, List.append_assoc, List.append_assoc]
    exact (takes_first hr hk).append
      (takes_chain hr (fun x hx => hsound x (by simp [hx])) hchain (fun h => by rw [hk] at h; cases h) [])

/-- Only the directive of a branch starts like a comment, and no line starts like a choice. -/
theorem cases_trimmedLines {r : Branch} (h : r.Sound) : ∀ l ∈ trimmedLines r,
    l = Directive.line (blockDirective r.id) ∨ ∃ c t, l = c :: t ∧ c ≠ '/' ∧ c ≠ '-' := by
  intro l hl
  rcases List.mem_cons.1 hl with rfl | hl
  · obtain ⟨t, ht⟩ := head_openingLine r
    exact .inr ⟨'<', t, ht, by decide, by decide⟩
  rcases List.mem_cons.1 hl with rfl | hl
  · exact .inl rfl
  rcases List.mem_append.1 hl with hl | hl
  · obtain ⟨c, t, rfl, hc⟩ := Layout.head_spokenLines h.speaker hl
    exact .inr ⟨c, t, rfl, hc.1, hc.2.1⟩
  · obtain ⟨t, -, rfl⟩ := Layout.mem_jumpLines hl
    exact .inr ⟨'<', _, Line.jump_eq t, by decide, by decide⟩

theorem meaningful_eq {c : Branching} (h : c.Sound) {b : Block}
    (hb : b.body.map (·.text) = c.branches.flatMap trimmedLines ++ [Layout.endIfLine]) : b.meaningful = b.body :=
  Block.meaningful_eq hb fun l hl => by
    rcases List.mem_append.1 hl with hl | hl
    · obtain ⟨r, hr, hl⟩ := List.mem_flatMap.1 hl
      rcases cases_trimmedLines (h.sound r hr) l hl with rfl | ⟨c, t, rfl, hc, -⟩
      · rw [Directive.directive?_line (isWritable_blockDirective _)]; exact .inr rfl
      · exact .inl (Line.isComment_of_ne hc t)
    · rw [List.mem_singleton.1 hl]; exact .inl (by decide)

theorem read_lines {c : Branching} (h : c.Sound) {b : Block}
    (hb : b.body.map (·.text) = c.branches.flatMap trimmedLines ++ [Layout.endIfLine]) : read ctx b = .ok c := by
  obtain ⟨p, hfold, hdone, hcurrent⟩ := @takes_lines ctx c h .start b.body rfl hb
  have hne : c.branches.isEmpty = false := by simpa using branches_ne_nil h
  unfold read
  rw [meaningful_eq h hb, hfold]
  show (Reading.ok p).andThen _ = _
  simp only [Reading.ok_andThen, Progress.finish, hcurrent, hdone, hne]
  rfl

/-! ## What was read -/

/-- The names that were read into a branch are well formed, and so are its conditions. -/
structure OpenBranch.Sound (b : OpenBranch) : Prop where
  id : ∀ i ∈ b.id, i ≠ []
  guard : b.kind = .orElse ∧ b.condition = none ∨
    b.kind ≠ .orElse ∧ ∃ cs, b.condition = some cs ∧ ∀ c ∈ cs, c.Writable
  speaker : ∀ s ∈ b.speaker, Text.isSpeaker s
  next : ∀ t ∈ b.next, Text.isNodeId t

theorem OpenBranch.sound_start_guarded {kind : BranchKind} (hk : kind ≠ .orElse) {cs : List Condition}
    (h : ∀ c ∈ cs, c.Writable) (n : Nat) : (OpenBranch.start n kind (some cs)).Sound :=
  ⟨by simp [start], .inr ⟨hk, cs, rfl, h⟩, by simp [start], by simp [start]⟩

theorem OpenBranch.sound_start_else (n : Nat) : (OpenBranch.start n .orElse none).Sound :=
  ⟨by simp [start], .inl ⟨rfl, rfl⟩, by simp [start], by simp [start]⟩

theorem make_eq_ok {id content : Text} {kind : BranchKind} {condition : Option (List Condition)} {r : Branch}
    (h : Branch.make id kind condition content = .ok r) :
    r.id = id ∧ r.kind = kind ∧ r.condition = condition ∧ condition ≠ some [] := by
  unfold Branch.make at h
  split at h
  · cases h
  · cases h; exact ⟨rfl, rfl, rfl, by simp⟩
  · cases h; exact ⟨rfl, rfl, rfl, by simp⟩
  · cases h

theorem sound_finish {b : OpenBranch} (hb : b.Sound) {node : Text} (hnode : Text.isNodeId node) {count : Nat}
    {r : Branch}
    (h : b.finish node count = .ok r) : r.Sound ∧ r.kind = b.kind := by
  unfold OpenBranch.finish at h
  dsimp only at h
  split at h
  · next r' hr =>
    cases h
    obtain ⟨hid, hkind, hcond, hne⟩ := make_eq_ok hr
    refine ⟨⟨?_, ?_, hb.speaker, hb.next⟩, hkind⟩
    · show r'.id ≠ []
      rw [hid]
      cases hi : b.id with
      | some i => exact hb.id i hi
      | none =>
        have hmiddle : ∀ c ∈ "-block-".toList, Text.isBlank c = false := Text.not_blank_of_all (by decide)
        exact (Text.isWord_numbered hnode hmiddle (count + 1)).1
    · show Branch.isGuarded r'.kind r'.condition
      rw [hkind, hcond]
      rcases hb.guard with h | ⟨hk, cs, hcs, hw⟩
      · exact .inl h
      · exact .inr ⟨hk, cs, hcs, by rintro rfl; exact hne hcs, hw⟩
  · cases h

/-- What was read is sound, and the kinds of the branches obey the rule of chains. -/
structure Progress.Sound (p : Progress) : Prop where
  done : ∀ r ∈ p.done, r.Sound
  current : ∀ b ∈ p.current, b.Sound
  notBegun : p.isBegun = false → p.done = [] ∧ p.current = none
  inside : ∀ b ∈ p.current, BranchKind.canFollow (p.done.map (·.kind)) b.kind
  closed : p.isBegun → p.current = none → BranchKind.isChain (p.done.map (·.kind))

namespace Progress

variable {p q : Progress}

theorem isBegun_of_current (hp : p.Sound) {b : OpenBranch} (hb : p.current = some b) : p.isBegun := by
  cases h : p.isBegun with
  | true => rfl
  | false => rw [(hp.notBegun h).2] at hb; cases hb

/-- Exchanging the open branch for a sound one of its kind keeps everything sound. -/
theorem sound_current (hp : p.Sound) {b b' : OpenBranch} (hb : p.current = some b) (hs : b'.Sound)
    (hk : b'.kind = b.kind) :
    Progress.Sound { p with current := some b' } := by
  refine ⟨hp.done, by rintro _ ⟨⟩; exact hs, ?_, ?_, fun _ h => by cases h⟩
  · intro h
    rw [isBegun_of_current hp hb] at h; cases h
  · rintro _ ⟨⟩
    rw [hk]
    exact hp.inside b hb

theorem sound_closeBranch (hp : p.Sound) {node : Text} (hnode : Text.isNodeId node) {n : Nat} {keyword : Text}
    (h : p.closeBranch node n keyword = .ok q) :
    q.Sound ∧ q.isBegun ∧
      (keyword ≠ "endif".toList → ∀ k, k ≠ .ifThen → BranchKind.canFollow (q.done.map (·.kind)) k) := by
  unfold closeBranch at h
  split at h
  · cases h
  · next b hb =>
    split at h
    · cases h
    · next hk =>
      obtain ⟨r, hr, rfl⟩ := except_map_eq_ok h
      obtain ⟨hs, hkind⟩ := sound_finish (hp.current b hb) hnode hr
      have hbegun := isBegun_of_current hp hb
      have hin := hp.inside b hb
      refine ⟨⟨fun x hx => ?_, fun x hx => (by cases hx), fun h => ?_, fun x hx => (by cases hx), fun _ _ => ?_⟩,
        hbegun, fun hkey k hk' => ?_⟩
      · rcases List.mem_append.1 hx with hx | hx
        · exact hp.done x hx
        · rw [List.mem_singleton.1 hx]; exact hs
      · rw [hbegun] at h; cases h
      · rw [List.map_append, List.map_singleton, hkind]
        exact BranchKind.isChain_of_canFollow hin
      · rw [List.map_append, List.map_singleton, hkind]
        exact BranchKind.canFollow_append hin (fun he => hk ⟨he, hkey⟩) hk'

theorem sound_openGuarded {node : Node.Context} (hp : p.Sound) {n : Nat} {kind : BranchKind} (hk : kind ≠ .orElse)
    (hf : BranchKind.canFollow (p.done.map (·.kind)) kind) {t : Text}
    (h : (p.openGuarded node n kind t).result = .ok q) : q.Sound := by
  obtain ⟨cs, hcs, he⟩ := Reading.andThen_eq_ok h
  cases he
  have hb := OpenBranch.sound_start_guarded hk (Node.writable_of_readConditions hcs) n
  refine ⟨hp.done, ?_, fun h => (by cases h), ?_, fun _ h => by cases h⟩
  · rintro _ ⟨⟩; exact hb
  · rintro _ ⟨⟩; exact hf

theorem sound_readDirective (hp : p.Sound) {n : Nat} {d : Except Directive.Fault Directive}
    (h : p.readDirective n d = .ok q) : q.Sound := by
  unfold readDirective at h
  split at h
  · cases h
  · split at h
    · next b hb =>
      split at h
      · split at h
        · cases h
          have hs := hp.current b hb
          exact sound_current hp hb ⟨by rintro i ⟨⟩; simp, hs.guard, hs.speaker, hs.next⟩ rfl
        · cases h
      · cases h
    · cases h

theorem openBranch_eq_ok {n : Nat} {b : OpenBranch} (h : p.openBranch n = .ok b) : p.current = some b := by
  unfold openBranch at h
  split at h
  · next hb => cases h; exact hb
  · cases h

theorem sound_readJump (hp : p.Sound) {n : Nat} {target : Text} (h : p.readJump n target = .ok q) : q.Sound := by
  obtain ⟨t, ht, hrest⟩ := except_bind_eq_ok h
  obtain ⟨b, hb, hrest⟩ := except_bind_eq_ok hrest
  have hcur := openBranch_eq_ok hb
  have hs := hp.current b hcur
  obtain ⟨rfl, ht⟩ := Node.readTarget_eq_ok_iff.1 ht
  split at hrest
  · cases hrest
  · cases hrest
    exact sound_current hp hcur
      ⟨hs.id, hs.guard, hs.speaker, by rintro u ⟨⟩; exact ht⟩ rfl

theorem sound_addContent {b c : OpenBranch} {l : SourceLine} (hb : b.Sound) (h : b.addContent l = .ok c) :
    c.Sound ∧ c.kind = b.kind := by
  unfold OpenBranch.addContent at h
  split at h
  · next who text hd =>
    split at h
    · cases h
    · split at h
      · split at h
        · cases h; exact ⟨⟨hb.id, hb.guard, hb.speaker, hb.next⟩, rfl⟩
        · cases h
      · cases h
        exact ⟨⟨hb.id, hb.guard, by rintro w ⟨⟩; exact Line.isSpeaker_of_dialogue? hd, hb.next⟩, rfl⟩
  · split at h
    · cases h
    · cases h; exact ⟨⟨hb.id, hb.guard, hb.speaker, hb.next⟩, rfl⟩

theorem sound_readContent (hp : p.Sound) {l : SourceLine} (h : p.readContent l = .ok q) : q.Sound := by
  obtain ⟨b, hb, h⟩ := except_bind_eq_ok h
  have hcur := openBranch_eq_ok hb
  split at h
  · cases h
  · obtain ⟨c, hc, rfl⟩ := except_map_eq_ok h
    obtain ⟨hs, hk⟩ := sound_addContent (hp.current b hcur) hc
    exact sound_current hp hcur hs hk

theorem sound_readCommand (hnode : Text.isNodeId ctx.node) (hp : p.Sound) {l : SourceLine} {c : Line.Command}
    (h : (p.readCommand ctx l c).result = .ok q) : q.Sound := by
  cases c with
  | ifThen t =>
    simp only [readCommand] at h
    split at h
    · cases h
    · next hbegun =>
      have hnil := (hp.notBegun (by simpa using hbegun)).1
      exact sound_openGuarded hp (by simp) (by rw [hnil]; exact .inl ⟨rfl, rfl⟩) h
  | elseIf t =>
    obtain ⟨p', hc, h⟩ := Reading.andThen_eq_ok h
    obtain ⟨hs, -, hf⟩ := sound_closeBranch hp hnode hc
    exact sound_openGuarded hs (by simp) (hf (by decide) .elseIf (by simp)) h
  | orElse =>
    obtain ⟨p', hc, rfl⟩ := except_map_eq_ok h
    obtain ⟨hs, hbegun, hf⟩ := sound_closeBranch hp hnode hc
    refine ⟨hs.done, ?_, ?_, ?_, fun _ h => by cases h⟩
    · rintro _ ⟨⟩; exact OpenBranch.sound_start_else l.number
    · intro h
      rw [show p'.isBegun = true from hbegun] at h; cases h
    · rintro _ ⟨⟩; exact hf (by decide) .orElse (by simp)
  | endIf =>
    obtain ⟨p', hc, rfl⟩ := except_map_eq_ok h
    obtain ⟨hs, -, -⟩ := sound_closeBranch hp hnode hc
    exact ⟨hs.done, hs.current, hs.notBegun, hs.inside, hs.closed⟩
  | jump target => exact sound_readJump hp h
  | set flag value => cases h
  | other inner => cases h

theorem sound_step (hnode : Text.isNodeId ctx.node) (hp : p.Sound) {l : SourceLine}
    (h : (step ctx p l).result = .ok q) :
    q.Sound := by
  unfold step at h
  split at h
  · cases h
  · split at h
    · exact sound_readDirective hp h
    · exact sound_readCommand hnode hp h
    · split at h
      · cases h; exact hp
      · split at h
        · cases h
        · exact sound_readContent hp h

end Progress

theorem sound_of_read {b : Block} {c : Branching} (hnode : Text.isNodeId ctx.node) (h : (read ctx b).result = .ok c) :
    c.Sound := by
  obtain ⟨p, hfold, hf⟩ := Reading.andThen_eq_ok h
  have hp : p.Sound := Reading.foldlM_invariant (fun l _ q q' hq hstep => Progress.sound_step hnode hq hstep)
    ⟨by simp [Progress.start], by simp [Progress.start], fun _ => ⟨rfl, rfl⟩, by simp [Progress.start],
      by simp [Progress.start]⟩ hfold
  simp only [Reading.ofExcept, Progress.finish] at hf
  split at hf
  · cases hf
  · next hcur =>
    split at hf
    · cases hf
    · next hne =>
      cases hf
      refine ⟨hp.closed ?_ hcur, hp.done⟩
      cases hbegun : p.isBegun with
      | true => rfl
      | false => rw [(hp.notBegun hbegun).1] at hne; exact absurd rfl hne

end Branching
end DialogueScript
