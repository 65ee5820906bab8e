import ShapeCodec.Files.Tree
/-! Writing into a tree of files. A file that has been written is found by the path that it was
written to and has the new text, and all other files have the text that they had. Making directories
concerns no file. -/
namespace ShapeCodec.Files

variable {place other above : Place} {text name path : String} {files : List (Place × String)}

namespace FileTree

variable {t t' : FileTree}

section Put

theorem lookup_put (place : Place) (text : String) (files : List (Place × String)) :
    (put place text files).lookup place = some text := by
  induction files with
  | nil => simp [put]
  | cons file files ih =>
    obtain ⟨other, old⟩ := file
    rw [put]
    by_cases h : other = place
    · simp [h]
    · have hplace : (place == other) = false := beq_eq_false_iff_ne.2 (Ne.symm h)
      rw [if_neg h, List.lookup_cons, hplace]
      exact ih

theorem lookup_put_of_ne (h : other ≠ place) (text : String) (files : List (Place × String)) :
    (put place text files).lookup other = files.lookup other := by
  have hother : (other == place) = false := beq_eq_false_iff_ne.2 h
  induction files with
  | nil => rw [put, List.lookup_cons, hother]
  | cons file files ih =>
    obtain ⟨key, old⟩ := file
    rw [put]
    by_cases hkey : key = place
    · rw [if_pos hkey, List.lookup_cons, List.lookup_cons, hkey, hother]
    · rw [if_neg hkey, List.lookup_cons, List.lookup_cons, ih]

/-- Where there was a file, there is one. -/
theorem exists_mem_put {file : Place × String} (h : file ∈ files) :
    ∃ file' ∈ put place text files, file'.1 = file.1 := by
  induction files with
  | nil => cases h
  | cons first files ih =>
    obtain ⟨key, old⟩ := first
    rw [put]
    by_cases hkey : key = place
    · rw [if_pos hkey]
      rcases List.mem_cons.1 h with rfl | h
      · exact ⟨_, List.mem_cons_self, hkey.symm⟩
      · exact ⟨file, List.mem_cons_of_mem _ h, rfl⟩
    · rw [if_neg hkey]
      rcases List.mem_cons.1 h with rfl | h
      · exact ⟨_, List.mem_cons_self, rfl⟩
      · obtain ⟨file', hmem, heq⟩ := ih h
        exact ⟨file', List.mem_cons_of_mem _ hmem, heq⟩

/-- Writing a file takes no directory away. -/
theorem isDirectory_put (h : t.isDirectory above = true) :
    isDirectory { t with files := put place text t.files } above = true := by
  simp only [isDirectory, Bool.or_eq_true, List.any_eq_true] at h ⊢
  refine h.imp_right ?_
  rintro ⟨file, hmem, habove⟩
  obtain ⟨file', hmem', heq⟩ := exists_mem_put hmem
  exact ⟨file', hmem', heq ▸ habove⟩

end Put

section Follow

theorem follow_append (t : FileTree) (place : Place) (a b : List String) :
    t.follow place (a ++ b) = t.follow place a >>= fun place => t.follow place b := by
  induction a generalizing place with
  | nil => rfl
  | cons segment a ih =>
    rw [List.cons_append, follow, follow]
    split
    · split
      · exact ih place
      · split
        · exact ih place.parent
        · exact ih (place.child segment)
    · rfl

/-- Where more directories are, the same paths lead to the same places. -/
theorem follow_mono (hmore : ∀ place, t.isDirectory place = true → t'.isDirectory place = true)
    {segments : List String} (h : t.follow place segments = .ok other) :
    t'.follow place segments = .ok other := by
  induction segments generalizing place with
  | nil => exact h
  | cons segment segments ih =>
    rw [follow] at h ⊢
    split at h
    · next hdirectory =>
      rw [if_pos (hmore place hdirectory)]
      split at h
      · next hidle =>
        rw [if_pos hidle]
        exact ih h
      · next hidle =>
        rw [if_neg hidle]
        split at h
        · next hup =>
          rw [if_pos hup]
          exact ih h
        · next hup =>
          rw [if_neg hup]
          exact ih h
    · cases h

/-- A path that goes on behind a place leads to a directory. -/
theorem of_follow_slash {segments : List String}
    (h : t.follow place (segments ++ [""]) = .ok above) :
    t.follow place segments = .ok above ∧ t.isDirectory above = true := by
  rw [follow_append] at h
  cases hfollow : t.follow place segments with
  | error e =>
    rw [hfollow] at h
    cases h
  | ok mid =>
    rw [hfollow] at h
    change t.follow mid [""] = .ok above at h
    rw [follow] at h
    split at h
    · next hdirectory =>
      have hmid : mid = above := by simpa [isIdle, follow] using h
      exact ⟨hmid ▸ rfl, hmid ▸ hdirectory⟩
    · cases h

theorem follow_name (hdirectory : t.isDirectory above = true) (hidle : isIdle name = false)
    (hup : name ≠ "..") : t.follow above [name] = .ok (above.child name) := by
  rw [follow, if_pos hdirectory, if_neg (by simp [hidle]), if_neg hup, follow]

end Follow

section Write

/-- The name of a file is the last segment of its path. -/
theorem exists_segments_of_fileName? (h : fileName? path = some name) :
    ∃ before, segments path = before ++ [name] ∧ isIdle name = false ∧ name ≠ ".." := by
  unfold fileName? at h
  split at h
  · next last hlast =>
    obtain ⟨before, hsegments⟩ := List.getLast?_eq_some_iff.1 hlast
    split at h
    · cases h
    · next hname =>
      cases h
      rw [not_or, Bool.not_eq_true] at hname
      exact ⟨before, hsegments, hname.1, hname.2⟩
  · cases h

theorem segmentsToSlash_eq {before : List String} (hsegments : segments path = before ++ [name])
    (hidle : isIdle name = false) : segmentsToSlash path = before ++ [name] := by
  have hname : name.isEmpty = false := by
    rw [isIdle, Bool.or_eq_false_iff, decide_eq_false_iff_not] at hidle
    simpa using hidle.1
  rw [segmentsToSlash, hsegments, List.reverse_append, List.reverse_singleton,
    List.singleton_append, List.dropWhile_cons_of_neg (by simp [hname]), List.reverse_cons,
    List.reverse_reverse]

/-- From one tree to another the file that a path leads to has got a text, and all other files are
as they were. -/
def OnlyWrites (t t' : FileTree) (path text : String) : Prop :=
  ∃ place, t'.place path = .ok place ∧ t'.text? place = some text ∧
    ∀ other, other ≠ place → t'.text? other = t.text? other

theorem onlyWrites_of_writeText (h : t.writeText path text = .ok t') :
    OnlyWrites t t' path text := by
  unfold writeText at h
  split at h
  · cases h
  · next hpath =>
    cases hfollow : t.follow (.start path) ((segmentsToSlash path).dropLast ++ [""]) with
    | error e => simp [hfollow, bind, Except.bind] at h
    | ok above =>
      simp only [hfollow, bind, Except.bind] at h
      split at h
      · cases h
      · next name hname =>
        split at h
        · cases h
        · cases h
          obtain ⟨before, hsegments, hidle, hup⟩ := exists_segments_of_fileName? hname
          rw [segmentsToSlash_eq hsegments hidle, List.dropLast_concat] at hfollow
          obtain ⟨hbefore, hdirectory⟩ := of_follow_slash hfollow
          refine ⟨above.child name, ?_, lookup_put _ _ _, fun other hother =>
            lookup_put_of_ne hother _ _⟩
          rw [place, if_neg hpath, hsegments, follow_append,
            follow_mono (fun _ => isDirectory_put) hbefore]
          exact follow_name (isDirectory_put hdirectory) hidle hup

/-- What was written is what is read. -/
theorem OnlyWrites.readText (h : OnlyWrites t t' path text) : t'.readText path = .ok text := by
  obtain ⟨place, hplace, htext, -⟩ := h
  simp only [FileTree.readText, hplace, bind, Except.bind, htext]

end Write

section Directories

variable {start : Place}

theorem files_makeDirectory {before : List String}
    (h : t.makeDirectory start before name = .ok t') : t'.files = t.files := by
  unfold makeDirectory at h
  cases hfollow : t.follow start (before ++ [""]) with
  | error e => simp [hfollow, bind, Except.bind] at h
  | ok place =>
    simp only [hfollow, bind, Except.bind] at h
    split at h
    · cases h
    · cases h
      rfl

theorem files_ensureDirectory {before : List String}
    (h : t.ensureDirectory start before name = .ok t') : t'.files = t.files := by
  unfold ensureDirectory at h
  split at h
  · next hmake =>
    cases h
    exact files_makeDirectory hmake
  · split at h
    · cases h
      rfl
    · cases h

theorem files_ensureDirectories {segments : List String}
    (h : t.ensureDirectories start segments = .ok t') : t'.files = t.files := by
  induction segments generalizing t' with
  | nil =>
    cases h
    rfl
  | cons name before ih =>
    rw [ensureDirectories] at h
    split at h
    · exact ih h
    · split at h
      · cases hbefore : t.ensureDirectories start before with
        | error e => simp [hbefore, bind, Except.bind] at h
        | ok mid =>
          rw [hbefore] at h
          exact (files_ensureDirectory h).trans (ih hbefore)
      · exact files_ensureDirectory h

/-- Making directories changes no file. -/
theorem files_createDirectories (h : t.createDirectories path = .ok t') : t'.files = t.files :=
  files_ensureDirectories h

theorem OnlyWrites.of_files_eq {mid : FileTree} (h : OnlyWrites mid t' path text)
    (hfiles : mid.files = t.files) : OnlyWrites t t' path text := by
  obtain ⟨place, hplace, htext, hothers⟩ := h
  exact ⟨place, hplace, htext, fun other hother => (hothers other hother).trans
    (congrArg (List.lookup other) hfiles)⟩

end Directories

end FileTree

end ShapeCodec.Files
