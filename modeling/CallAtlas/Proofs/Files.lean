import CallAtlas.Files
import CallAtlas.Proofs.Outcome

/-! # Writing files

Of the trees that can be made from the empty one, each has its device at a fixed place only
(`OneDevice`). A file of another name is therefore there with its content once it has been written
(`at?_write`): the directories on its way are as they were (`Keeps.follow`). In a directory that is
there, a name that a file can have gives room for one (`HasRoom.write`), and keeps it while
directories stay (`HasRoom.of_keeps`). -/

namespace CallAtlas.Files

variable {fs : Files}

/-- The tree with something put at a way. -/
def put (fs : Files) (way : List Text) (e : FileEntry) : Files :=
  { fs with entries := fs.entries.insert way e }

theorem entry?_put (fs : Files) (way w : List Text) (e : FileEntry) :
    Files.entry? (fs.put way e) w = if w.isEmpty then some .directory
      else if way = w then some e else fs.entry? w := by
  unfold entry? put
  split
  · rfl
  · rw [OrderedMap.get?_insert]

theorem entry?_erase (fs : Files) (way w : List Text) :
    Files.entry? { fs with entries := fs.entries.erase way } w = if w.isEmpty then some .directory
      else if way = w then none else fs.entry? w := by
  unfold entry?
  split
  · rfl
  · rw [OrderedMap.get?_erase]

/-! ## Devices -/

/-- No device stands anywhere but at its own place. -/
def OneDevice (fs : Files) : Prop :=
  ∀ way, fs.entries.get? way = some .device → way = [("dev" : Text), "null"]

namespace OneDevice

theorem put (h : fs.OneDevice) (way : List Text) {e : FileEntry} (he : e ≠ .device) :
    (fs.put way e).OneDevice := by
  intro w hw
  rw [Files.put, OrderedMap.get?_insert] at hw
  split at hw
  · exact absurd (Option.some.inj hw) he
  · exact h w hw

theorem write (h : fs.OneDevice) {p : Path} {c : FileContent} {fs' : Files}
    (hw : fs.write p c = .ok fs') : fs'.OneDevice := by
  unfold Files.write at hw
  split at hw
  · cases hw
  · split at hw <;> cases hw
    · exact h
    · exact h.put _ nofun

theorem remove (h : fs.OneDevice) {p : Path} {fs' : Files} (hr : fs.remove p = .ok fs') :
    fs'.OneDevice := by
  unfold Files.remove at hr
  split at hr
  · cases hr
  · split at hr <;> cases hr
    intro w hw
    rw [OrderedMap.get?_erase] at hw
    split at hw
    · cases hw
    · exact h w hw

theorem makeAlong (h : fs.OneDevice) (way : List Text) (missed : Bool) (names : List Text) :
    (fs.makeAlong way missed names).1.OneDevice := by
  fun_induction Files.makeAlong fs way missed names with
  | case1 => exact h
  | case2 fs way missed name rest next hn ih => exact ih (h.put next nofun)
  | case3 fs way missed name rest next hn ih => exact ih h
  | case4 => exact h

theorem makeDirectories (h : fs.OneDevice) (p : Path) : (fs.makeDirectories p).1.OneDevice := by
  unfold Files.makeDirectories
  split
  · exact h
  · exact h.makeAlong _ _ _

theorem after (h : fs.OneDevice) {r : Except FileError Files}
    (hr : ∀ fs', r = .ok fs' → fs'.OneDevice) : (fs.after r).1.OneDevice := by
  cases r with
  | ok fs' => exact hr fs' rfl
  | error e => exact h

theorem foldl_directory (ways : List (List Text)) {m : OrderedMap (List Text) FileEntry}
    (h : ∀ w, m.get? w ≠ some .device) :
    ∀ w, (ways.foldl (fun m w => m.insert w .directory) m).get? w ≠ some .device := by
  induction ways generalizing m with
  | nil => exact h
  | cons way ways ih =>
    refine ih fun w hw => ?_
    rw [OrderedMap.get?_insert] at hw
    split at hw
    · cases hw
    · exact h w hw

theorem empty (cwd : List Text) : (Files.empty cwd).OneDevice := by
  intro w hw
  rw [Files.empty, OrderedMap.get?_insert] at hw
  split at hw
  · next h => exact h.symm
  · exact absurd hw (foldl_directory _ (by simp) w)

end OneDevice

/-! ## Following a path -/

/-- Where one tree has a directory, so has the other. -/
structure Keeps (fs fs' : Files) : Prop where
  cwd : fs'.cwd = fs.cwd
  directory : ∀ way, fs.entry? way = some .directory → fs'.entry? way = some .directory

theorem Keeps.trans {fs' fs'' : Files} (h : fs.Keeps fs') (h' : fs'.Keeps fs'') : fs.Keeps fs'' :=
  ⟨h'.cwd.trans h.cwd, fun way hw => h'.directory way (h.directory way hw)⟩

theorem Keeps.follow {fs' : Files} (h : fs.Keeps fs') {start names w : List Text}
    (hf : fs.follow start names = .ok w) : fs'.follow start names = .ok w := by
  induction names generalizing start with
  | nil => exact hf
  | cons name names ih =>
    rw [Files.follow] at hf ⊢
    split at hf
    · cases hf
    · next hs => rw [h.directory start hs]; exact ih hf
    · cases hf

theorem Keeps.locate {fs' : Files} (h : fs.Keeps fs') {p : Path} {w : List Text}
    (hl : fs.locate p = .ok w) : fs'.locate p = .ok w := by
  obtain ⟨u, hu, hf⟩ := ok_of_bind hl
  rw [Files.locate, hu, h.cwd]
  exact h.follow hf

/-- Something is put where no directory stands. -/
theorem keeps_put {way : List Text} (hway : fs.entry? way ≠ some .directory) (e : FileEntry) :
    fs.Keeps (fs.put way e) := by
  refine ⟨rfl, fun w hw => ?_⟩
  have hne : way ≠ w := fun heq => hway (heq ▸ hw)
  rw [entry?_put, if_neg hne, hw, ite_self]

theorem follow_concat {start names w : List Text} {name : Text} (hn : name ≠ "..")
    (h : fs.follow start (names ++ [name]) = .ok w) : ∃ base, w = base ++ [name] := by
  induction names generalizing start with
  | nil =>
    rw [List.nil_append, follow] at h
    split at h
    · cases h
    · rw [if_neg hn] at h
      exact ⟨start, (Except.ok.inj h).symm⟩
    · cases h
  | cons first names ih =>
    rw [List.cons_append, follow] at h
    split at h
    · cases h
    · exact ih h
    · cases h

theorem at?_of_locate {p : Path} {way : List Text} (h : fs.locate p = .ok way) :
    fs.at? p = fs.entry? way := by
  rw [at?, h]

/-- What is written at a path where no device stands is there. -/
theorem at?_written {p : Path} (hdev : fs.at? p ≠ some .device) {c : FileContent} {fs' : Files}
    (h : fs.write p c = .ok fs') : fs'.at? p = some (.regular c) := by
  unfold write at h
  split at h
  · cases h
  · next way hloc =>
    rw [at?_of_locate hloc] at hdev
    split at h
    · cases h
    · next hdevice => exact absurd hdevice hdev
    · next hdir _ =>
      cases h
      change (fs.put way (.regular c)).at? p = _
      have hne : way.isEmpty = false := by
        cases way with
        | nil => exact absurd rfl hdir
        | cons name way => rfl
      rw [at?_of_locate ((keeps_put hdir _).locate hloc), entry?_put, if_pos rfl, hne]
      rfl
    · cases h
    · cases h

/-- A file that is written is there with its content, if it is not the device. -/
theorem at?_write {p : Path} {name : Text} (hdots : name ≠ "..") (hnull : name ≠ "null")
    (hdev : fs.OneDevice) {c : FileContent} {fs' : Files}
    (h : fs.write (p.child name) c = .ok fs') : fs'.at? (p.child name) = some (.regular c) := by
  refine at?_written (fun hdevice => ?_) h
  unfold at? at hdevice
  split at hdevice
  · next way hloc =>
    obtain ⟨u, -, hfollow⟩ := ok_of_bind hloc
    obtain ⟨base, rfl⟩ := follow_concat hdots hfollow
    -- The way to the file does not end in the name of the device.
    have hget : fs.entries.get? (base ++ [name]) = some .device := by
      simpa [ entry?] using hdevice
    have hlast := congrArg List.getLast? (hdev _ hget)
    rw [List.getLast?_concat] at hlast
    exact hnull (Option.some.inj hlast)
  · cases hdevice

/-! ## Room for a file -/

/-- A file can be written at a path: it is the path of a name in a directory, a file can have it,
and nothing but a regular file stands there. -/
structure HasRoom (fs : Files) (p : Path) : Prop where
  inside : fs.isDirectory p.parent = true
  names : checkNames p = .ok ()
  notUp : p.name ≠ ".."
  notDirectory : fs.isDirectory p = false
  notDevice : fs.at? p ≠ some .device

theorem isDirectory_iff {p : Path} : fs.isDirectory p = true ↔ fs.at? p = some .directory := by
  unfold isDirectory
  split <;> simp_all

theorem follow_append {start names w : List Text} (h : fs.follow start names = .ok w)
    (more : List Text) : fs.follow start (names ++ more) = fs.follow w more := by
  induction names generalizing start with
  | nil => cases h; rfl
  | cons name names ih =>
    rw [follow] at h
    split at h
    · cases h
    · next hs => rw [List.cons_append, follow, hs]; exact ih h
    · cases h

/-- The way to a path with room is that of its directory and one name more. -/
theorem HasRoom.locate {p : Path} (h : fs.HasRoom p) : ∃ base,
    fs.locate p = .ok (base ++ [p.name]) ∧ fs.locate p.parent = .ok base ∧
      fs.entry? base = some .directory := by
  have hinside := isDirectory_iff.1 h.inside
  unfold at? at hinside
  split at hinside
  · next base hbase =>
    have hparts : p.parts = p.parts.dropLast ++ [p.name] := by
      have hne : p.parts ≠ [] := by
        intro hnil
        have hparent : p.parent = p := by
          obtain ⟨anchor, parts⟩ := p
          cases hnil
          rfl
        have := h.inside
        rw [hparent, h.notDirectory] at this
        cases this
      rw [Path.name, List.getLast?_eq_some_getLast hne, Option.getD_some,
        List.dropLast_concat_getLast hne]
    refine ⟨base, ?_, hbase, hinside⟩
    obtain ⟨u, -, hfollow⟩ := ok_of_bind hbase
    rw [Files.locate, h.names]
    have hup : (if p.name = ".." then base.dropLast else base ++ [p.name]) = base ++ [p.name] :=
      if_neg h.notUp
    calc fs.follow (if p.isAbsolute then [] else fs.cwd) p.parts
        = fs.follow base [p.name] := by
          conv => lhs; rw [hparts]
          exact follow_append hfollow [p.name]
      _ = .ok (base ++ [p.name]) := by rw [follow, hinside]; simp only [hup, follow]
  · cases hinside

/-- Where there is room, a file is put in place of what stands there. -/
theorem HasRoom.write {p : Path} (h : fs.HasRoom p) (c : FileContent) :
    ∃ way, fs.locate p = .ok way ∧ fs.entry? way ≠ some .directory ∧
      fs.write p c = .ok (fs.put way (.regular c)) := by
  obtain ⟨base, hloc, -, hbase⟩ := h.locate
  have hat := at?_of_locate hloc
  have hdir : fs.entry? (base ++ [p.name]) ≠ some .directory := by
    rw [← hat]
    intro hd
    have := isDirectory_iff.2 hd
    rw [h.notDirectory] at this
    cases this
  have hdev : fs.entry? (base ++ [p.name]) ≠ some .device := hat ▸ h.notDevice
  refine ⟨_, hloc, hdir, ?_⟩
  have hlast : fs.entry? (base ++ [p.name]).dropLast = some .directory := by
    rw [List.dropLast_concat, hbase]
  rw [Files.write, hloc]
  simp only
  rw [hlast]
  cases hentry : fs.entry? (base ++ [p.name]) with
  | none => rfl
  | some e =>
    cases e with
    | directory => exact absurd hentry hdir
    | device => exact absurd hentry hdev
    | regular c => rfl

theorem HasRoom.written {p : Path} (h : fs.HasRoom p) (c : FileContent) :
    ∃ fs', fs.write p c = .ok fs' ∧ fs.Keeps fs' ∧ fs'.at? p = some (.regular c) := by
  obtain ⟨way, -, hdir, hwrite⟩ := h.write c
  exact ⟨_, hwrite, keeps_put hdir _, at?_written h.notDevice hwrite⟩

/-- A file that is removed leaves the directories as they are. -/
theorem keeps_remove {p : Path} {fs' : Files} (h : fs.remove p = .ok fs') :
    fs.Keeps fs' ∧ fs'.at? p = none := by
  unfold remove at h
  split at h
  · cases h
  · next way hloc =>
    split at h <;> cases h
    next e hdir hentry =>
      have hkeeps : fs.Keeps { fs with entries := fs.entries.erase way } := by
        refine ⟨rfl, fun w hw => ?_⟩
        have hne : way ≠ w := by
          rintro rfl
          rw [hw] at hentry
          exact hdir (Option.some.inj hentry).symm
        rw [entry?_erase, if_neg hne, hw, ite_self]
      refine ⟨hkeeps, ?_⟩
      have hnonempty : way.isEmpty = false := by
        cases way with
        | nil => exact absurd (Option.some.inj hentry).symm hdir
        | cons name way => rfl
      rw [at?_of_locate (hkeeps.locate hloc), entry?_erase, hnonempty, if_pos rfl]
      rfl

/-- A file is renamed if there is room for it under its other name. -/
theorem HasRoom.renamed {p : Path} {name : Text} (h : fs.HasRoom p)
    (hnew : fs.HasRoom (p.parent.child name)) (hfile : fs.isRegular p = true) :
    ∃ fs', fs.rename p name = .ok fs' ∧ fs.Keeps fs' ∧ fs'.at? p = none := by
  obtain ⟨base, hloc, -, -⟩ := h.locate
  obtain ⟨c, hentry⟩ : ∃ c, fs.entry? (base ++ [p.name]) = some (.regular c) := by
    unfold isRegular at hfile
    rw [at?_of_locate hloc] at hfile
    split at hfile
    · next c hc => exact ⟨c, hc⟩
    · cases hfile
  obtain ⟨way, -, hdir, hwrite⟩ := hnew.write c
  have hkeeps := keeps_put hdir (.regular c)
  have hloc' := hkeeps.locate hloc
  -- The old name still leads to the file, also if it is the new one.
  have hentry' : Files.entry? (fs.put way (.regular c)) (base ++ [p.name]) =
      some (.regular c) := by
    rw [entry?_put, hentry, ite_self]
    simp
  have hremove : ∃ fs', (fs.put way (.regular c)).remove p = .ok fs' := by
    rw [remove, hloc']
    simp only [hentry', Except.ok.injEq, exists_eq']
  obtain ⟨fs', hremove⟩ := hremove
  obtain ⟨hkeeps', hgone⟩ := keeps_remove hremove
  refine ⟨fs', ?_, hkeeps.trans hkeeps', hgone⟩
  have hread : fs.read p = .ok c := by
    rw [read, hloc]
    simp only [hentry]
  rw [rename, hread]
  simp only [hwrite, hremove]

theorem Keeps.isDirectory {p : Path} {fs' : Files} (hk : fs.Keeps fs')
    (h : fs.isDirectory p = true) : fs'.isDirectory p = true := by
  rw [isDirectory_iff] at h ⊢
  unfold at? at h
  split at h
  · next way hloc => rw [at?_of_locate (hk.locate hloc), hk.directory way h]
  · cases h

/-- Room stays where nothing stands. -/
theorem HasRoom.of_keeps {p : Path} {fs' : Files} (h : fs.HasRoom p) (hk : fs.Keeps fs')
    (hat : fs'.at? p = none) : fs'.HasRoom p := by
  refine ⟨hk.isDirectory h.inside, h.names, h.notUp, ?_, by rw [hat]; nofun⟩
  rw [isDirectory, hat]

/-! ## Directories that are there -/

theorem directory_of_follow {start names w : List Text} (h : fs.follow start names = .ok w)
    (hw : fs.entry? w = some .directory) : fs.entry? start = some .directory := by
  cases names with
  | nil => cases h; exact hw
  | cons name names =>
    rw [follow] at h
    split at h
    · cases h
    · next hs => exact hs
    · cases h

theorem makeAlong_of_follow {start names w : List Text} (h : fs.follow start names = .ok w)
    (hw : fs.entry? w = some .directory) (missed : Bool) :
    fs.makeAlong start missed names = (fs, none) := by
  induction names generalizing start with
  | nil => rfl
  | cons name names ih =>
    rw [follow] at h
    split at h
    · cases h
    · rw [makeAlong]
      simp only [directory_of_follow h hw]
      exact ih h
    · cases h

theorem makeDirectories_of_isDirectory {p : Path} (h : fs.isDirectory p = true) :
    fs.makeDirectories p = (fs, none) := by
  have hat := isDirectory_iff.1 h
  unfold at? at hat
  split at hat
  · next way hloc =>
    obtain ⟨u, hu, hf⟩ := ok_of_bind hloc
    rw [makeDirectories, hu]
    exact makeAlong_of_follow hf hat false
  · cases hat

end CallAtlas.Files
