import DialogueScript.Proofs.Script.Read
import DialogueScript.Script.Write
/-!
# What reading and writing do not depend on

Edges are derived from references, and what is wrong with an edge does not keep a graph from being written: a script
does not depend on the edges of its graph. Nor does it depend on how strictly scripts are read. Reading in turn does
not depend on how scripts are written, and a schema of flags only adds warnings about flags to its report.

Results:
* `write_edges`: edges, and the settings for reading, do not matter to writing.
* `map_unflagged_read`: without warnings about flags, reading with a schema is reading without one.
* `read_write_settings`: what does not matter to writing and to reading.
-/
namespace DialogueScript

namespace Check

/-- The warning is about a flag that a schema does not know, or knows to be of another type. -/
def Warning.isAboutFlag : Warning → Bool
  | unknownFlag .. | typeMismatch .. => true
  | unreachable _ => false

/-- The report without its warnings about flags. -/
def Report.unflagged (r : Report) : Report := { r with warnings := r.warnings.filter (!·.isAboutFlag) }

/-! ## Schemas -/

section Warnings

variable {schema : Schema} {node : Text} {w : Warning}

theorem isAboutFlag_flagWarnings {flag : Text} {found : Option FlagType} (h : w ∈ flagWarnings schema node flag found) :
    w.isAboutFlag := by
  unfold flagWarnings at h
  split at h
  · rw [List.mem_singleton.1 h]; rfl
  · cases h
  · split at h
    · cases h
    · rw [List.mem_singleton.1 h]; rfl

theorem isAboutFlag_conditionWarnings {c : Condition} (h : w ∈ conditionWarnings schema node c) : w.isAboutFlag := by
  unfold conditionWarnings at h
  split at h
  · exact isAboutFlag_flagWarnings h
  · cases h

theorem isAboutFlag_setWarnings {flag : Text} (h : w ∈ setWarnings schema node flag) : w.isAboutFlag := by
  unfold setWarnings at h
  split at h
  · exact isAboutFlag_flagWarnings h
  · cases h

theorem isAboutFlag_payloadWarnings {p : Payload} (h : w ∈ payloadWarnings schema node p) : w.isAboutFlag := by
  cases p with
  | speech s =>
    obtain ⟨flag, -, h⟩ := List.mem_flatMap.1 h
    exact isAboutFlag_setWarnings h
  | menu m =>
    obtain ⟨c, -, h⟩ := List.mem_flatMap.1 h
    rcases List.mem_append.1 h with h | h
    · obtain ⟨condition, -, h⟩ := List.mem_flatMap.1 h
      exact isAboutFlag_conditionWarnings h
    · obtain ⟨flag, -, h⟩ := List.mem_flatMap.1 h
      exact isAboutFlag_setWarnings h
  | branching b =>
    obtain ⟨branch, -, h⟩ := List.mem_flatMap.1 h
    obtain ⟨condition, -, h⟩ := List.mem_flatMap.1 h
    exact isAboutFlag_conditionWarnings h
  | storylet s => cases h
  | pool p => cases h

end Warnings
end Check

namespace Graph
open Check

variable {g : Graph} {w : Warning}

theorem isAboutFlag_of_mem_flagWarnings {schema : Option Schema} (h : w ∈ g.flagWarnings schema) : w.isAboutFlag := by
  cases schema with
  | none => cases h
  | some s =>
    obtain ⟨n, -, h⟩ := List.mem_flatMap.1 h
    exact isAboutFlag_payloadWarnings h

theorem isAboutFlag_of_mem_reachWarnings (h : w ∈ g.reachWarnings) : w.isAboutFlag = false := by
  unfold reachWarnings at h
  split at h
  · obtain ⟨key, -, rfl⟩ := List.mem_map.1 h
    rfl
  · cases h

/-- All that a schema adds to a check is warnings about flags. -/
theorem unflagged_check (g : Graph) (schema : Option Schema) : (g.check schema).unflagged = g.check none := by
  have hflags : (g.flagWarnings schema).filter (!·.isAboutFlag) = [] :=
    List.filter_eq_nil_iff.2 fun w hw => by simp [isAboutFlag_of_mem_flagWarnings hw]
  have hreach : g.reachWarnings.filter (!·.isAboutFlag) = g.reachWarnings :=
    List.filter_eq_self.2 fun w hw => by simp [isAboutFlag_of_mem_reachWarnings hw]
  have hwarnings : (g.warnings schema).filter (!·.isAboutFlag) = g.warnings none := by
    rw [warnings, List.filter_append, hflags, hreach]
    rfl
  unfold Report.unflagged check
  rw [hwarnings]

end Graph

namespace Script

/-! ## Writing -/

variable {settings settings' : Settings}

/-- A graph is written as the same script, or refused for the same problems, whatever its edges are. -/
theorem write_edges (hpositions : settings.emitPositions = settings'.emitPositions)
    (hbanner : settings.emitBanner = settings'.emitBanner) (g : Graph) (es : List Edge) :
    write settings' { g with edges := es } = write settings g := by
  have hstructural : (({ g with edges := es } : Graph).check settings'.flagSchema).structural =
      (g.check settings.flagSchema).structural := by
    rw [Graph.structural_eq, Graph.structural_eq]
    rfl
  have hlines : ∀ bs, lines settings' { g with edges := es } bs = lines settings g bs := by
    intro bs
    unfold lines topLines
    rw [hbanner]
    rfl
  unfold write
  simp only [hstructural, hlines, hpositions]

/-! ## Reading -/

/-- The outcome without warnings about flags. -/
def Outcome.unflagged (out : Outcome) : Outcome := { out with report := out.report.unflagged }

theorem map_unflagged_outcome (settings : Settings) (o : Outline) :
    (outcome settings o).map Outcome.unflagged = outcome { settings with flagSchema := none } o := by
  unfold outcome
  cases readGraph settings.strictConditions o with
  | mk notices result =>
    cases result with
    | error f => rfl
    | ok g =>
      -- references are refused for problems, and those are the same with and without a schema
      have hrefuse : refuseDangling o.blocks (g.check settings.flagSchema) = refuseDangling o.blocks (g.check none) := rfl
      show Except.map _ (Except.map _ _) = Except.map _ _
      rw [hrefuse]
      generalize (if settings.strictReferences = true then refuseDangling o.blocks (g.check none) else _) = refusal
      cases refusal with
      | error f => rfl
      | ok u =>
        show Except.ok (Outcome.mk g notices (g.check settings.flagSchema).unflagged) = _
        rw [Graph.unflagged_check]
        rfl

/-- Reading with a schema is reading without one, but for warnings about flags. -/
theorem map_unflagged_read (settings : Settings) (s : Text) :
    (read settings s).map Outcome.unflagged = read { settings with flagSchema := none } s := by
  rw [read_eq, read_eq]
  cases Outline.read s with
  | error f => rfl
  | ok o => exact map_unflagged_outcome settings o

/-- Reading with a schema does not depend on how scripts are written. -/
theorem read_congr (hconditions : settings.strictConditions = settings'.strictConditions)
    (hreferences : settings.strictReferences = settings'.strictReferences) (schema : Option Check.Schema) (s : Text) :
    read { settings with flagSchema := schema } s = read { settings' with flagSchema := schema } s := by
  unfold read
  rw [hconditions, hreferences]

/-- What does not matter. A graph is written as the same script or refused for the same problems whatever its edges,
and under all settings that agree on positions and on the banner. A script is read with the same outcome or the same
failure under all settings that agree on how strict reading is, but for the warnings about flags in the report, which
are all that a schema adds. -/
theorem read_write_settings :
    (∀ (settings settings' : Settings) (g : Graph) (es : List Edge), settings.emitPositions = settings'.emitPositions →
      settings.emitBanner = settings'.emitBanner → write settings' { g with edges := es } = write settings g) ∧
    ∀ (settings settings' : Settings) (s : Text), settings.strictConditions = settings'.strictConditions →
      settings.strictReferences = settings'.strictReferences →
      (read settings s).map Outcome.unflagged = (read settings' s).map Outcome.unflagged ∧
      (settings'.flagSchema = none → (read settings s).map Outcome.unflagged = read settings' s) := by
  refine ⟨fun settings settings' g es hpositions hbanner => write_edges hpositions hbanner g es,
    fun settings settings' s hconditions hreferences => ?_⟩
  have hplain : (read settings s).map Outcome.unflagged = read { settings' with flagSchema := none } s := by
    rw [map_unflagged_read, read_congr hconditions hreferences]
  refine ⟨by rw [hplain, map_unflagged_read], fun hschema => ?_⟩
  rw [hplain, ← hschema]

/-- Settings for reading with a schema that knows one flag as a number, and for writing as little as can be. -/
def coinSettings : Settings := ⟨false, false, false, false, some (.ofList [("coins".toList, .number)])⟩

/-- A script that sets this flag and one that the schema does not know. -/
def coinScript : Text := "title: a\n---\nBob: Hi\n<<set $coins = true>>\n<<set $met = true>>\n===\n".toList

def coinGraph : Graph where
  id := "dialogue".toList
  title := []
  start := ['a']
  nodes := .ofList [(['a'], ⟨['a'], none, .speech ⟨"Bob".toList, "Hi".toList, none, ["coins".toList, "met".toList]⟩⟩)]
  edges := []
  ends := [.plain ['a']]

theorem read_write_settings_coins :
    write coinSettings { coinGraph with edges := [.plain [] ['a'] ['z']] } =
      write ⟨true, true, false, false, none⟩ coinGraph ∧
    read coinSettings coinScript = .ok ⟨coinGraph, [], coinGraph.check coinSettings.flagSchema⟩ ∧
    coinGraph.flagWarnings coinSettings.flagSchema =
      [.typeMismatch ['a'] "coins".toList .number .boolean, .unknownFlag ['a'] "met".toList] ∧
    read .standard coinScript = .ok ⟨coinGraph, [], (coinGraph.check coinSettings.flagSchema).unflagged⟩ := by
  obtain ⟨hwrite, hread⟩ := read_write_settings
  have hcoins : read coinSettings coinScript = .ok ⟨coinGraph, [], coinGraph.check coinSettings.flagSchema⟩ := by
    with_unfolding_all rfl
  have hstandard := (hread coinSettings .standard coinScript rfl rfl).2 rfl
  rw [hcoins] at hstandard
  exact ⟨hwrite ⟨true, true, false, false, none⟩ coinSettings coinGraph _ rfl rfl, hcoins, by rfl, hstandard.symm⟩

end Script
end DialogueScript
