import DialogueScript.Proofs.Script.RoundTrip
/-!
# Which graphs are written

A check stands in front of the writer, and the writer of a node has a check of its own: it refuses a speaker that
could not be read back. The first check finds all that the second one would, under whatever key the node is stored
and whatever numbers it holds, so a graph is refused as a whole and for all of its structural problems, or written
as a whole.

Results:
* `write_of_structural`: a graph without structural problems is written.
* `write_eq_ok_iff`: exactly these are, no node of them is refused, and any other graph is refused with the list of
  its structural problems.
-/
namespace DialogueScript.Script

variable {settings : Settings} {g : Graph}

theorem write_of_structural (h : (g.check settings.flagSchema).structural = []) :
    write settings g = .ok (text settings g) :=
  write_of_speakers h (Graph.speakers_of_structural h)

theorem write_of_not_structural (h : (g.check settings.flagSchema).structural ≠ []) :
    write settings g = .error (.notWritable (g.check settings.flagSchema).structural) := by
  unfold write
  rw [if_neg (by simpa using h)]

theorem block_of_structural (h : (g.check settings.flagSchema).structural = []) {n : Node} (hn : n ∈ g.nodes.nodes)
    (withPosition : Bool) : n.block withPosition = .ok (n.draft withPosition) :=
  Node.block_of_speakers (Graph.speakers_of_structural h n hn) withPosition

/-- Writing succeeds exactly on graphs without structural problems. Any other graph is refused with all of these
problems, in order; none is refused for a single node. -/
theorem write_eq_ok_iff (settings : Settings) (g : Graph) :
    ((∃ s, write settings g = .ok s) ↔ (g.check settings.flagSchema).structural = []) ∧
    (∀ f, write settings g = .error f ↔
      (g.check settings.flagSchema).structural ≠ [] ∧ f = .notWritable (g.check settings.flagSchema).structural) ∧
    ((g.check settings.flagSchema).structural = [] →
      ∀ n ∈ g.nodes.nodes, ∃ b, n.block settings.emitPositions = .ok b) := by
  by_cases h : (g.check settings.flagSchema).structural = []
  · have hwrite := write_of_structural h
    refine ⟨⟨fun _ => h, fun _ => ⟨_, hwrite⟩⟩, fun f => ⟨fun hf => ?_, fun hf => absurd h hf.1⟩,
      fun _ n hn => ⟨_, block_of_structural h hn _⟩⟩
    rw [hwrite] at hf
    cases hf
  · have hwrite := write_of_not_structural h
    refine ⟨⟨fun ⟨s, hs⟩ => ?_, fun hs => absurd hs h⟩, fun f => ⟨fun hf => ?_, fun hf => ?_⟩, fun hs => absurd hs h⟩
    · rw [hwrite] at hs
      cases hs
    · rw [hwrite] at hf
      cases hf
      exact ⟨h, rfl⟩
    · rw [hwrite, hf.2]

/-- A graph whose only node stands under a key that is not its id, and lets someone speak whose name has a blank. -/
def misplaced : Graph where
  id := "dialogue".toList
  title := []
  start := ['k']
  nodes := .ofList [(['k'], ⟨['a'], none, .speech ⟨"Old Man".toList, "Hi".toList, none, []⟩⟩)]
  edges := []
  ends := []

/-- A graph whose only node is a speech that ends it. -/
def greeting : Graph where
  id := "dialogue".toList
  title := "Tea".toList
  start := ['a']
  nodes := .ofList [(['a'], ⟨['a'], none, .speech ⟨"Bob".toList, "Hi".toList, none, []⟩⟩)]
  edges := []
  ends := [.plain ['a']]

theorem write_eq_ok_iff_misplaced :
    write .standard misplaced =
      .error (.notWritable [.defect ['k'] (.wrongKey ['k'] ['a']), .badName ['a'] .speaker "Old Man".toList]) ∧
    (∃ s, write .standard greeting = .ok s) ∧
    write .standard greeting = .ok
      ("// Generated by DGSC (Dialogue Graph Script Compiler)\n".toList ++
        "// DO NOT EDIT - Changes will be overwritten on next export\n".toList ++
        "// @graph id=dialogue title=Tea start=a\n// @end node=a\n\n".toList ++
        "title: a\n---\nBob: Hi\n===\n".toList) := by
  have hmisplaced : (misplaced.check none).structural =
      [.defect ['k'] (.wrongKey ['k'] ['a']), .badName ['a'] .speaker "Old Man".toList] := by rfl
  have hgreeting : (greeting.check none).structural = [] := by rfl
  refine ⟨?_, (write_eq_ok_iff .standard greeting).1.2 hgreeting, ?_⟩
  · apply ((write_eq_ok_iff .standard misplaced).2.1 _).2
    rw [show Settings.standard.flagSchema = none from rfl, hmisplaced]
    exact ⟨by simp, rfl⟩
  · exact (write_of_structural hgreeting).trans (congrArg Except.ok (by decide +kernel))

end DialogueScript.Script
