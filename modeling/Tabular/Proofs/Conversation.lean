import Tabular.Proofs.Separation
import Tabular.Proofs.Snapshot
import Tabular.Proofs.Tree
import Tabular.Proofs.Words
import Tabular.Shell.Basic

/-!
Conversations cut in two. A line of a conversation ends it, prints something for the shell alone or
carries out a command, and a line feed at the end of one text makes the lines of two texts those of
both together. A run loads the store that the last one has saved, so two runs one after the other
say and save what one run on both inputs does (`runs_join`). In a directory tree the second run finds
what the first has saved, and the configuration as it was (`Tree.follow_after`).
-/

namespace Tabular

theorem Command.runLine_trim (config : Config) (line : String) :
    runLine config (Text.trim line) = runLine config line := by
  simp only [runLine, runLineBy, parse, Words.split_trim]

namespace Shell

/-! ### Lines -/

theorem lineList_ne_nil {cs : List Char} (h : cs ≠ []) : lineList cs ≠ [] := by
  cases cs with
  | nil => exact (h rfl).elim
  | cons c rest =>
      rw [lineList]
      split
      · exact List.cons_ne_nil _ _
      · split <;> exact List.cons_ne_nil _ _

/-- After a line feed a new line begins. -/
theorem lineList_append {cs : List Char} (h : cs.getLast? = some '\n') (cs' : List Char) :
    lineList (cs ++ cs') = lineList cs ++ lineList cs' := by
  induction cs with
  | nil => cases h
  | cons c rest ih =>
      cases rest with
      | nil =>
          obtain rfl := Option.some.inj h
          rfl
      | cons d rest =>
          rw [List.getLast?_cons_cons] at h
          have hne := lineList_ne_nil (List.cons_ne_nil d rest)
          rw [List.cons_append, lineList, lineList, ih h]
          split
          · rfl
          · cases hlines : lineList (d :: rest) with
            | nil => exact (hne hlines).elim
            | cons line lines => rfl

theorem lines_append {a : String} (h : a.toList.getLast? = some '\n') (b : String) :
    lines (a ++ b) = lines a ++ lines b := by
  rw [lines, String.toList_append, lineList_append h, List.map_append]
  rfl

/-! ### One line of a conversation -/

/-- The line ends the session. -/
def Ends (line : String) : Prop := Text.trim line = ".exit" ∨ Text.trim line = ".quit"

instance (line : String) : Decidable (Ends line) := inferInstanceAs (Decidable (_ ∨ _))

/-- The line is for the store and not for the shell: it is not blank and does not begin with a
dot. -/
def IsCommand (line : String) : Prop :=
  Text.trim line ≠ "" ∧ (Text.trim line).toList.head? ≠ some '.'

instance (line : String) : Decidable (IsCommand line) := inferInstanceAs (Decidable (_ ∧ _))

/-- The store after a line. -/
def obey (config : Config) (line : String) (s : Store) : Store :=
  if IsCommand line then s.after config line else s

/-- The store after the commands among some lines. -/
def obeyAll (config : Config) (ls : List String) (s : Store) : Store :=
  s.afterAll ((ls.filter fun line => IsCommand line).map (config, ·))

theorem obeyAll_cons (config : Config) (line : String) (rest : List String) (s : Store) :
    obeyAll config (line :: rest) s = obeyAll config rest (obey config line s) := by
  unfold obeyAll obey
  by_cases hc : IsCommand line
  · rw [List.filter_cons_of_pos (by simpa using hc), if_pos hc]
    rfl
  · rw [List.filter_cons_of_neg (by simpa using hc), if_neg hc]

theorem obeyAll_append (config : Config) (ls ls' : List String) (s : Store) :
    obeyAll config (ls ++ ls') s = obeyAll config ls' (obeyAll config ls s) := by
  rw [obeyAll, List.filter_append, List.map_append]
  exact List.foldl_append

theorem answer_trim (config : Config) (line : String) (s : Store) :
    (answer config (Text.trim line) s).2 = s.after config line := by
  rw [answer, Store.after, Command.runLine_trim]
  rcases (Command.runLine config line).exec ⟨s, none⟩ with ⟨_ | _, σ⟩ <;> rfl

/-- What is printed for a line that finds this store. -/
def say (config : Config) (line : String) (s : Store) : String :=
  ((feed config line { store := s }).map (·.1)).getD ""

/-- What is printed for each of some lines. -/
def sayAll (config : Config) : List String → Store → List String
  | [], _ => []
  | line :: rest, s =>
      say config line s :: sayAll config rest (obey config line s)

/-- A line that does not end the session prints what it does with the store, whatever was saved
before, and only a command changes the store. -/
theorem feed_eq {line : String} (h : ¬ Ends line) (config : Config) (state : State) :
    ∃ saved, feed config line state =
      some (say config line state.store, ⟨obey config line state.store, saved⟩) := by
  obtain ⟨hexit, hquit⟩ := not_or.mp h
  by_cases hblank : Text.trim line = ""
  · have hnot : ¬ IsCommand line := fun h => h.1 hblank
    refine ⟨state.saved, ?_⟩
    simp only [say, obey, feed, if_pos hblank, if_neg hnot, Option.map_some, Option.getD_some]
  by_cases hdot : (Text.trim line).toList.head? = some '.'
  · have hnot : ¬ IsCommand line := fun h => h.2 hdot
    have hends : ¬ (Text.trim line = ".exit" ∨ Text.trim line = ".quit") := h
    simp only [say, obey, feed, if_neg hblank, if_pos hdot, if_neg hends, if_neg hnot]
    by_cases hhelp : Text.trim line = ".help"
    · refine ⟨state.saved, ?_⟩
      simp only [if_pos hhelp, Option.map_some, Option.getD_some]
    by_cases hsave : Text.trim line = ".save"
    · refine ⟨some state.store, ?_⟩
      simp only [if_neg hhelp, if_pos hsave, Option.map_some, Option.getD_some]
    · refine ⟨state.saved, ?_⟩
      simp only [if_neg hhelp, if_neg hsave, Option.map_some, Option.getD_some]
  · have hcommand : IsCommand line := ⟨hblank, hdot⟩
    refine ⟨state.saved, ?_⟩
    simp only [say, obey, feed, if_neg hblank, if_neg hdot, if_pos hcommand, ← answer_trim,
      Option.map_some, Option.getD_some]

/-! ### Whole conversations -/

/-- A conversation that no line ends answers every line and carries out the commands. -/
theorem converse_eq {ls : List String} (h : ∀ line ∈ ls, ¬ Ends line) (config : Config)
    (state : State) : ∃ saved, converse config ls state =
      (sayAll config ls state.store, ⟨obeyAll config ls state.store, saved⟩) := by
  induction ls generalizing state with
  | nil => exact ⟨state.saved, rfl⟩
  | cons line rest ih =>
      obtain ⟨hline, hrest⟩ := List.forall_mem_cons.mp h
      obtain ⟨saved, hfeed⟩ := feed_eq hline config state
      obtain ⟨saved', hconverse⟩ := ih hrest ⟨obey config line state.store, saved⟩
      refine ⟨saved', ?_⟩
      simp only [converse, hfeed, hconverse, sayAll, obeyAll_cons]

theorem sayAll_append (config : Config) (ls ls' : List String) (s : Store) :
    sayAll config (ls ++ ls') s = sayAll config ls s ++ sayAll config ls' (obeyAll config ls s) := by
  induction ls generalizing s with
  | nil => rfl
  | cons line rest ih => rw [List.cons_append, sayAll, sayAll, ih, obeyAll_cons, List.cons_append]

/-! ### Runs -/

/-- The files that the next run finds: under the name of the snapshot what the last run has written
there, and the configuration file as it was. -/
structure Files.Follow (later files : Files) (o : Options) (name : String) (last : Outcome) :
    Prop where
  snapshot : ∀ content, last.written = some content → later.find name = .file content
  config : ∀ file, o.config = some file → later.find file = files.find file
  accepts : later.accepts name = files.accepts name

/-- A configuration that loads is read from a file. -/
theorem exists_content_of_loadConfig {o : Options} {files : Files} {config : Config}
    (h : loadConfig o files = .ok config) {file : String} (hfile : o.config = some file) :
    ∃ content, files.find file = .file content := by
  cases hfind : files.find file with
  | file content => exact ⟨content, rfl⟩
  | nothing | unreadable =>
      rw [loadConfig, hfile] at h
      simp only [hfind] at h
      cases h

/-- After a run that has saved its snapshot in a directory tree the next run finds the snapshot and
the configuration file, unless this one was replaced by the snapshot or lay where the snapshot is
written first. -/
theorem Tree.follow_after {t t' : Tree} {o : Options} {name : String} {config : Config}
    {last : Outcome} (hconfig : loadConfig o t.toFiles = .ok config)
    (hafter : t.after? name last = some t')
    (hapart : ∀ target file place content, t.target? name = some target → o.config = some file →
      t.walk file = .file place content → place ≠ target.file ∧ place ≠ target.temporary) :
    t'.toFiles.Follow t.toFiles o name last := by
  obtain ⟨target, htarget, hsave⟩ := Option.bind_eq_some_iff.mp hafter
  obtain ⟨content, hwritten, hsave⟩ := Option.bind_eq_some_iff.mp hsave
  obtain rfl := Option.some.inj hsave
  refine ⟨fun content' hcontent => ?_, fun file hfile => ?_, ?_⟩
  · obtain rfl : content = content' := Option.some.inj (hwritten.symm.trans hcontent)
    exact find_save htarget
  · obtain ⟨content', hfind⟩ := exists_content_of_loadConfig hconfig hfile
    obtain ⟨place, hwalk⟩ := exists_walk_of_find hfind
    obtain ⟨hne, hne'⟩ := hapart target file place content' htarget hfile hwalk
    exact find_save_of_walk htarget hwalk hne hne'
  · have haccepts : t.accepts name = true := by
      rw [accepts, htarget]
      rfl
    exact (accepts_save htarget).trans haccepts.symm

section
variable {o : Options} {name : String} {files later : Files} {config : Config} {s : Store}
variable (hcommand : o.command = none) (hsnapshot : o.snapshot = some name)
include hcommand hsnapshot

/-- What a run says and saves that reads its lines to the end. -/
theorem runWith_eq (hconfig : loadConfig o files = .ok config) (hstore : loadStore o files = .ok s)
    (haccepts : files.accepts name = true) {input : String}
    (hends : ∀ line ∈ lines input, ¬ Ends line) :
    runWith o files input =
      { output := transcript (sayAll config (lines input) s)
        code := 0
        written := some (Snapshot.encode (obeyAll config (lines input) s)) } := by
  obtain ⟨saved, hconverse⟩ := converse_eq hends config ⟨s, none⟩
  have htalk : talk o config input s =
      (transcript (sayAll config (lines input) s), ⟨obeyAll config (lines input) s, saved⟩) := by
    simp only [talk, hcommand, hconverse]
  unfold runWith
  rw [hconfig, hstore]
  simp only [bind, Except.bind, pure, Except.pure, htalk, hsnapshot, haccepts, if_true]

/-- A run on some lines and then one on further lines leave the snapshot that one run on all of
them leaves, which is that of the store after all commands, and each line is answered in the same
way. -/
theorem runs_join (hconfig : loadConfig o files = .ok config) (hstore : loadStore o files = .ok s)
    (haccepts : files.accepts name = true) {a b : String} (ha : a.toList.getLast? = some '\n')
    (hends : ∀ line ∈ lines a ++ lines b, ¬ Ends line)
    (hfits : Snapshot.Fits (obeyAll config (lines a) s))
    (hlater : later.Follow files o name (runWith o files a)) :
    let s' := obeyAll config (lines a) s
    (runWith o later b).written = (runWith o files (a ++ b)).written ∧
      (runWith o files (a ++ b)).written =
        some (Snapshot.encode (obeyAll config (lines (a ++ b)) s)) ∧
      (runWith o files a).output = transcript (sayAll config (lines a) s) ∧
      (runWith o later b).output = transcript (sayAll config (lines b) s') ∧
      (runWith o files (a ++ b)).output =
        transcript (sayAll config (lines a) s ++ sayAll config (lines b) s') := by
  intro s'
  obtain ⟨hends_a, hends_b⟩ := List.forall_mem_append.mp hends
  have hfirst := runWith_eq hcommand hsnapshot hconfig hstore haccepts hends_a
  have hconfig' : loadConfig o later = .ok config := by
    rw [← hconfig]
    unfold loadConfig
    cases hfile : o.config with
    | none => rfl
    | some file =>
        have hcontent := hlater.config file hfile
        simp only [hcontent]
  have hstore' : loadStore o later = .ok s' := by
    have hfind := hlater.snapshot _ (congrArg Outcome.written hfirst)
    unfold loadStore
    rw [hsnapshot, Option.map_some, hfind]
    exact Snapshot.load_encode hfits
  have hsecond := runWith_eq hcommand hsnapshot hconfig' hstore'
    (hlater.accepts.trans haccepts) hends_b
  have hwhole := runWith_eq hcommand hsnapshot hconfig hstore haccepts (lines_append ha b ▸ hends)
  rw [hfirst, hsecond, hwhole, lines_append ha, obeyAll_append, sayAll_append]
  exact ⟨rfl, rfl, rfl, rfl, rfl⟩

end

/-- A working directory with nothing but a configuration file in it. -/
def sampleTree : Tree where
  working := ["work"]
  node place :=
    if place = ["work"] then some .directory
    else if place = ["work", "kv.json"] then some (.file (Text.utf8 "[5000]"))
    else none
  closed _ := false

/-- The first run makes a directory and a snapshot in it, to which the second adds. -/
theorem sample_runs_join :
    let name := "data/tables.kvtb"
    let o : Options := { config := some "kv.json", snapshot := some name }
    let files : Files := sampleTree.toFiles
    let config : Config := { maxRowsScan := 5000 }
    let a := "NAMESPACE.CREATE app\n.save\n"
    let b := " SCHEMA.CREATE app.users name:string"
    let s' := obeyAll config (lines a) ∅
    let target : Tree.Target :=
      ⟨["work", "data", "tables.kvtb"], ["work", "data", "tables.tmp"], [["work", "data"]]⟩
    let later : Tree := sampleTree.save target (Snapshot.encode s')
    sampleTree.after? name (runWith o files a) = some later ∧
      loadConfig o files = .ok config ∧ loadStore o files = .ok ∅ ∧ files.accepts name = true ∧
      a.toList.getLast? = some '\n' ∧ (∀ line ∈ lines a ++ lines b, ¬ Ends line) ∧
      Snapshot.Fits s' ∧ later.toFiles.Follow files o name (runWith o files a) ∧
      (runWith o later.toFiles b).written = (runWith o files (a ++ b)).written ∧
      (runWith o files (a ++ b)).written =
        some (Snapshot.encode (obeyAll config (lines (a ++ b)) ∅)) ∧
      (runWith o files a).output = transcript (sayAll config (lines a) ∅) ∧
      (runWith o later.toFiles b).output = transcript (sayAll config (lines b) s') ∧
      (runWith o files (a ++ b)).output =
        transcript (sayAll config (lines a) ∅ ++ sayAll config (lines b) s') := by
  intro name o files config a b s' target later
  have hconfig : loadConfig o files = .ok config := by decide +kernel
  have hstore : loadStore o files = .ok ∅ := by decide +kernel
  have haccepts : files.accepts name = true := by decide +kernel
  have ha : a.toList.getLast? = some '\n' := by decide +kernel
  have hends : ∀ line ∈ lines a ++ lines b, ¬ Ends line := by decide +kernel
  have hfits : Snapshot.Fits s' := by decide +kernel
  have htarget : sampleTree.target? name = some target := by decide +kernel
  have hwritten : (runWith o files a).written = some (Snapshot.encode s') := by decide +kernel
  have hafter : sampleTree.after? name (runWith o files a) = some later := by
    rw [Tree.after?, htarget, hwritten]
    rfl
  have hapart : ∀ target file place content, sampleTree.target? name = some target →
      o.config = some file → sampleTree.walk file = .file place content →
      place ≠ target.file ∧ place ≠ target.temporary := by
    intro target' file place content htarget' hfile hwalk
    obtain rfl : target = target' := Option.some.inj (htarget.symm.trans htarget')
    obtain rfl : "kv.json" = file := Option.some.inj hfile
    have hplace : sampleTree.walk "kv.json" =
        .file ["work", "kv.json"] (Text.utf8 "[5000]") := by decide +kernel
    obtain ⟨rfl, -⟩ := Walked.file.inj (hplace.symm.trans hwalk)
    decide
  have hfollow := Tree.follow_after hconfig hafter hapart
  exact ⟨hafter, hconfig, hstore, haccepts, ha, hends, hfits, hfollow,
    runs_join rfl rfl hconfig hstore haccepts ha hends hfits hfollow⟩

end Shell

end Tabular
