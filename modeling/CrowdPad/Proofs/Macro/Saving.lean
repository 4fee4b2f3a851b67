import CrowdPad.Proofs.Macro.Neighbours

/-! Saving a macro file more than once. A file that was saved is loaded as it was, whatever its path led
to before. It can be saved over from then on, so that what is loaded is always what was saved last. -/

namespace CrowdPad

namespace Files

variable {fs fs' : Files} {place : List String} {path target content old : String}

theorem write_of_place (hplace : fs.place path = .ok place) (hbefore : fs.entry? place ≠ some .folder)
    (hslash : Path.endsInSlash path = false) (content : String) :
    fs.write path content = .ok (fs.put place (.file content)) := by
  rw [write, modify, bind_of_eq_ok hplace]
  cases hentry : fs.entry? place with
  | none =>
      rw [hslash]
      rfl
  | some entry =>
      cases entry with
      | folder => exact absurd hentry hbefore
      | file old => rfl

theorem rename_of_files (hsource : fs.at? path = some (.file content))
    (htarget : fs.at? target = some (.file old)) (hslash : Path.endsInSlash target = false) :
    ∃ fs', fs.rename path target = .ok fs' := by
  obtain ⟨source, hfrom, hsource⟩ := exists_of_at? hsource
  obtain ⟨goal, hto, htarget⟩ := exists_of_at? htarget
  rw [rename, bind_of_eq_ok hfrom, bind_of_eq_ok hto, hsource, htarget]
  simp only [hslash]
  exact ⟨_, rfl⟩

/-- Where something was moved from, no folder is left. -/
theorem ne_folder_of_rename (hsource : fs.at? path = some (.file content))
    (h : fs.rename path target = .ok fs') (hplace : fs.place path = .ok place) :
    fs'.entry? place ≠ some .folder := by
  obtain ⟨source, goal, hfrom, hfile, -, hbefore, -, rfl⟩ := rename_eq_ok hsource h
  cases Except.ok.inj (hfrom.symm.trans hplace)
  have hsourceFile : fs.entry? place ≠ some .folder := ne_folder_of_file hfile
  by_cases hsame : place = goal
  · rw [hsame, entry?_put _ (ne_nil_of_entry?_ne hbefore)]
    exact nofun
  · rw [(differs_put goal _ _).elsewhere place hsame,
      entry?_drop fs (ne_nil_of_entry?_ne hsourceFile)]
    exact nofun

/-- What a path without a name leads to is a folder. -/
theorem isSome_fileName? (htree : fs.IsTree) (hfile : fs.at? path = some (.file content)) :
    (Path.fileName? path).isSome := by
  obtain ⟨place, hplace, hentry⟩ := exists_of_at? hfile
  have hwalk := walk_parts hplace
  have hfolder : fs.entry? place ≠ some .folder := ne_folder_of_file hentry
  rw [Option.isSome_iff_ne_none]
  intro hname
  rcases Path.fileName?_eq_none hname with hnone | ⟨around, hparts⟩
  · rw [hnone] at hwalk
    cases hwalk
    exact hfolder (htree.origin path)
  · rw [hparts] at hwalk
    exact hfolder (walk_back htree (htree.origin path) hwalk)

end Files

namespace MacroFile

variable {fs fs' : Files} {path parent name other content : String} {file : MacroFile}

/-- Whether a path leads to a macro file that can be saved over. -/
structure Stored (path : String) (file : MacroFile) (fs : Files) : Prop where
  sturdy : fs.Sturdy path
  seen : fs.at? path = some (.file (Json.pretty file.toValue))
  beside : fs.entry? (fs.spot (staging path)) ≠ some .folder
  slash : Path.endsInSlash path = false

theorem Stored.load (h : Stored path file fs) (hnames : (file.macros.map (·.1)).Nodup) :
    MacroFile.load fs path = .ok file :=
  load_of_file h.seen hnames

theorem stored_of_save (h : fs.IsTree) (hsave : save fs path file = (fs', .ok ())) :
    Stored path file fs' := by
  obtain ⟨made, written, hmade, hwrite, hrename⟩ := save_ok_iff.mp hsave
  obtain ⟨hsturdy, hseen⟩ := save_eq_ok h hsave
  have hroom := isTree_makeRoom h path
  rw [hmade] at hroom
  have htree : written.IsTree := hroom.write hwrite
  have hbeside := hroom.at?_write hwrite
  obtain ⟨source, -, hsource, hfile, -, -, hslash, -⟩ := Files.rename_eq_ok hbeside hrename
  have hfolder : written.entry? source ≠ some .folder := Files.ne_folder_of_file hfile
  refine ⟨hsturdy, hseen, ?_, hslash⟩
  rw [Files.spot_of_home (Files.home_rename hrename), ← (Files.spot_of_place htree hsource hfolder).1]
  exact Files.ne_folder_of_rename hbeside hrename hsource

/-- A file that a path leads to has a folder around. -/
theorem blocked_of_file (hsplit : Split path parent name other) (h : fs.Sturdy path)
    (hfile : fs.at? path = some (.file content)) : (standing path fs).blocked = none := by
  rw [blocked_standing hsplit, Option.eq_none_iff_forall_ne_some]
  intro fault hblocked
  obtain ⟨place, hplace, -⟩ := Files.exists_of_at? hfile
  have hwalk := Files.walk_parts hplace
  have hstays := h.stays_parts
  rw [hsplit.parts, ← hsplit.origin] at hwalk hstays
  obtain ⟨around, haround, hfolder, -⟩ := Files.walk_concat h.tree
    (h.tree.origin parent) hsplit.leads hsplit.up hwalk
  rcases Files.walk_of_blocked (fun _ => Files.leads_of_mem_parts) h.tree
    (Files.not_climbs_of_append hstays) hblocked with ⟨-, hnone⟩ | ⟨-, place', content', hother, hentry⟩
  · rw [haround] at hnone
    cases hnone
  · rw [haround] at hother
    cases hother
    rw [hfolder] at hentry
    cases hentry

/-- A stored file can be saved over. -/
theorem Stored.exists_save (h : Stored path file fs) (next : MacroFile) :
    ∃ fs', save fs path next = (fs', .ok ()) := by
  have hname := Files.isSome_fileName? h.sturdy.tree h.seen
  obtain ⟨parent, name, other, hsplit⟩ := exists_split hname
  obtain ⟨made, hmade, htree, hhome, hopens, -, hkept⟩ :=
    exists_makeRoom hsplit h.sturdy (blocked_of_file hsplit h.sturdy h.seen)
  have hroom := leaves_makeRoom h.sturdy
  rw [hmade] at hroom
  have hspot := Files.spot_of_home hhome (staging path)
  -- The file beside is written in the folder that is there.
  obtain ⟨last, hlast⟩ := Option.isSome_iff_exists.mp hname
  have hstaging : Path.OfFile (staging path) :=
    Path.ofFile_withExtension (c := 'p') hlast rfl (by decide) (by decide)
  have hopens' : made.Opens (made.origin (staging path)) (Path.parts parent.toList) := by
    rw [hsplit.origin', Files.origin_of_home hhome]
    exact hopens
  have hplace : made.place (staging path) = .ok (made.spot (staging path)) :=
    Files.place_of_trim_of_opens hstaging.trim hsplit.parts' hsplit.leads' hsplit.up' hopens'
  have hbeside : made.entry? (made.spot (staging path)) ≠ some .folder := by
    rw [hspot, hkept]
    exact h.beside
  have hwrite := Files.write_of_place hplace hbeside hstaging.slash (Json.pretty next.toValue)
  -- Writing it leaves the stored file, which it is moved over.
  have hwritten := leaves_staging (hroom.sturdy h.sturdy) hwrite
  have hseen := (hroom.trans hwritten).same.trans h.seen
  obtain ⟨fs', hrename⟩ := Files.rename_of_files (htree.at?_write hwrite) hseen h.slash
  exact ⟨fs', save_ok_iff.mpr ⟨made, _, hmade, hwrite, hrename⟩⟩

/-- Saves one file after the other, as far as they can be saved. -/
def saveAll (fs : Files) (path : String) : List MacroFile → Except StorageFault Files
  | [] => .ok fs
  | file :: rest =>
    match save fs path file with
    | (_, .error fault) => .error fault
    | (fs, .ok ()) => saveAll fs path rest

theorem Stored.exists_saveAll (h : Stored path file fs) (later : List MacroFile) :
    ∃ fs', saveAll fs path later = .ok fs' ∧ Stored path (later.getLastD file) fs' := by
  induction later generalizing fs file with
  | nil => exact ⟨fs, rfl, h⟩
  | cons next rest ih =>
      obtain ⟨fs', hsave⟩ := h.exists_save next
      rw [saveAll, hsave, List.getLastD_cons]
      exact ih (stored_of_save h.sturdy.tree hsave)

/-- **Saving and loading.** A collection that was saved is loaded as it was, whatever the path led to
before, and it can be saved over again and again: what is loaded is what was saved last. -/
theorem load_last_saved (h : fs.IsTree) (hnames : (file.macros.map (·.1)).Nodup)
    (hsave : save fs path file = (fs', .ok ())) :
    fs'.at? path = some (.file (Json.pretty file.toValue)) ∧
      MacroFile.load fs' path = .ok file ∧
      ∀ later : List MacroFile, (∀ next ∈ later, (next.macros.map (·.1)).Nodup) →
        ∃ fs'', saveAll fs' path later = .ok fs'' ∧
          MacroFile.load fs'' path = .ok (later.getLastD file) := by
  have hstored := stored_of_save h hsave
  refine ⟨hstored.seen, hstored.load hnames, fun later hlater => ?_⟩
  obtain ⟨fs'', hall, hlast⟩ := hstored.exists_saveAll later
  refine ⟨fs'', hall, hlast.load ?_⟩
  rcases List.mem_cons.mp (List.getLastD_mem_cons (l := later) (a := file)) with hsame | hmem
  · rw [hsame]
    exact hnames
  · exact hlater _ hmem

/-- Quotes, backslashes, control characters and other alphabets, in the names and in the verbs, and a
macro without steps. -/
def motley : MacroFile where
  name := "\"Größe\" \\ \u0001\x7f\t🎮"
  macros := [("", []), ("z\n\"z\"", [⟨"跳", 0, 4294967295⟩, ⟨"\\u0041/\x08", 17, 0⟩]), ("a", [])]

/-- A folder with a macro file that holds no collection, and what a save before left beside it. -/
def littered : Files where
  entries := [(["pads"], .folder), (["pads", "m.json"], .file "[1, 2"),
    (["pads", "m.json.tmp"], .file "\x7b")]

theorem load_last_saved_motley : ∃ fs, save littered "./pads/m.json" motley = (fs, .ok ()) ∧
    load fs "./pads/m.json" = .ok motley ∧
    ∃ fs', saveAll fs "./pads/m.json" [{}, motley, { name := "empty" }] = .ok fs' ∧
      load fs' "./pads/m.json" = .ok { name := "empty" } := by
  have hsave : save littered "./pads/m.json" motley =
      ((save littered "./pads/m.json" motley).1, .ok ()) := by decide +kernel
  obtain ⟨-, hload, hmore⟩ := load_last_saved
    (Files.isTree_of_entries (by decide) (by decide)) (by decide) hsave
  exact ⟨_, hsave, hload, hmore [{}, motley, { name := "empty" }] (by decide)⟩

end MacroFile

end CrowdPad
