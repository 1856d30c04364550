import Mathlib.Data.List.Infix
import ThreeAddress.Command.Files
import ThreeAddress.Proofs.Except

namespace ThreeAddress.Command

/-- Around a place there is nothing that is not around the directory it was reached from. -/
theorem Location.prefix_of_child {l m : Location} {name : String} (h : m <+: l.child name)
    (hne : m ≠ l.child name) : m <+: l := by
  have hconcat {x : String} (h : m <+: l ++ [x]) (hne : m ≠ l ++ [x]) : m <+: l :=
    (List.prefix_concat_iff.mp h).resolve_left hne
  unfold Location.child at h hne
  split at h
  · exact h
  · rename_i hdot
    rw [if_neg hdot] at hne
    split at h
    · rename_i hup
      rw [if_pos hup] at hne
      unfold Location.parent at h hne
      split at h
      · rename_i hlast
        simp only [hlast] at hne
        exact hconcat h hne
      · rename_i hlast
        simp only [hlast] at hne
        exact hconcat h hne
      · exact h
      · exact h.trans (List.dropLast_prefix l)
    · rename_i hup
      rw [if_neg hup] at hne
      exact hconcat h hne

namespace Files

variable {files files' : Files} {l m : Location} {name last text : String} {content : ByteArray}

theorem isDirectory_iff : files.isDirectory l = true ↔ l.isAbove = true ∨
    (∃ d ∈ files.directories, l <+: d) ∨ ∃ e ∈ files.entries, l <+: e.1 ∧ l ≠ e.1 := by
  simp [isDirectory, or_assoc]

theorem isDirectory_of_around (h : l <+: m) (hm : files.isDirectory m = true) :
    files.isDirectory l = true := by
  rw [isDirectory_iff] at hm ⊢
  rcases hm with hm | ⟨d, hd, hm⟩ | ⟨e, he, hm, hne⟩
  · refine .inl (List.all_eq_true.mpr fun x hx ↦ ?_)
    exact List.all_eq_true.mp hm x (h.subset hx)
  · exact .inr (.inl ⟨d, hd, h.trans hm⟩)
  · refine .inr (.inr ⟨e, he, h.trans hm, ?_⟩)
    rintro rfl
    exact hne (hm.eq_of_length_le h.length_le)

theorem permit_cases (files : Files) (p : Permission) (l : Location) :
    files.permit p l = .ok () ∨ ∃ e, files.permit p l = .error e := by
  unfold permit
  cases files.refusals.lookup (p, l) with
  | none => exact .inl rfl
  | some e => exact .inr ⟨e, rfl⟩

theorem lookUp_eq (h : files.permit .search l = .ok ()) (name : String) :
    files.lookUp l name =
      if files.isDirectory (l.child name) then .ok .directory
      else if 255 < name.utf8ByteSize then .error .nameTooLong
      else .ok ((files.find? (l.child name)).elim .missing .file) := by
  rw [lookUp, h]
  cases files.find? (l.child name) <;> rfl

theorem lookUp_ok {entry : Entry} (h : files.lookUp l name = .ok entry) :
    files.permit .search l = .ok () ∧ (entry = .directory ∨
      files.isDirectory (l.child name) = false ∧ name.utf8ByteSize ≤ 255 ∧
        entry = (files.find? (l.child name)).elim .missing .file) := by
  obtain ⟨_, hp, -⟩ := bind_eq_ok h
  refine ⟨hp, ?_⟩
  rw [lookUp_eq hp] at h
  split at h
  · cases h
    exact .inl rfl
  · rename_i hd
    split at h
    · cases h
    · rename_i hlen
      cases h
      exact .inr ⟨by simpa using hd, Nat.not_lt.mp hlen, rfl⟩

theorem enter_ok_iff : files.enter l name = .ok m ↔
    files.permit .search l = .ok () ∧ files.isDirectory (l.child name) = true ∧
      m = l.child name := by
  rcases files.permit_cases .search l with hp | ⟨e, hp⟩
  · rw [enter, lookUp_eq hp]
    split
    · rename_i hd
      simp [hp, hd, bind, Except.bind, eq_comm]
    · rename_i hd
      simp only [hd, Bool.false_eq_true, false_and, and_false, iff_false]
      split
      · exact nofun
      · cases files.find? (l.child name) <;> exact nofun
  · simp [enter, lookUp, hp, bind, Except.bind]

theorem foldlM_enter_ok {steps : List String} (hl : files.isDirectory l = true)
    (h : steps.foldlM files.enter l = .ok m) :
    files.isDirectory m = true ∧ m = steps.foldl Location.child l := by
  induction steps generalizing l with
  | nil =>
    cases h
    exact ⟨hl, rfl⟩
  | cons name steps ih =>
    obtain ⟨l', hl', h⟩ := bind_eq_ok h
    obtain ⟨-, hd, rfl⟩ := enter_ok_iff.mp hl'
    exact ih hd h

theorem reach_ok_iff : files.reach name = .ok (l, last) ↔ name.utf8ByteSize < 4096 ∧
    (Path.ofString name).steps.getLast? = some last ∧
    (Path.ofString name).steps.dropLast.foldlM files.enter (Path.ofString name).start = .ok l := by
  unfold reach
  by_cases hlen : 4096 ≤ name.utf8ByteSize
  · simp [hlen, Nat.not_lt.mpr hlen]
  · simp only [if_neg hlen, Nat.not_le.mp hlen, true_and]
    cases (Path.ofString name).steps.getLast? with
    | none => simp
    | some last' =>
      cases (Path.ofString name).steps.dropLast.foldlM files.enter (Path.ofString name).start with
      | error e => simp [bind, Except.bind]
      | ok l' => simp [bind, Except.bind, and_comm]

/-- A path is followed through directories, to the place that it spells. -/
theorem reach_ok (h : files.reach name = .ok (l, last)) :
    files.isDirectory l = true ∧ l.child last = (Path.ofString name).location := by
  obtain ⟨-, hlast, h⟩ := reach_ok_iff.mp h
  have hstart : files.isDirectory (Path.ofString name).start = true := by
    unfold Path.start
    split <;> rfl
  obtain ⟨hd, hl⟩ := foldlM_enter_ok hstart h
  refine ⟨hd, ?_⟩
  rw [Path.location, ← List.dropLast_append_getLast? last hlast, List.foldl_concat, ← hl]

/-- Only the directories and the refusals matter for where a path leads. -/
theorem reach_congr (h : ∀ l, files'.isDirectory l = files.isDirectory l)
    (hp : ∀ p l, files'.permit p l = files.permit p l) :
    files'.reach name = .ok (l, last) ↔ files.reach name = .ok (l, last) := by
  have hfold (steps : List String) (l m : Location) :
      steps.foldlM files'.enter l = .ok m ↔ steps.foldlM files.enter l = .ok m := by
    induction steps generalizing l with
    | nil => rfl
    | cons name steps ih =>
      have hstep (f : Files) : (name :: steps).foldlM f.enter l = .ok m ↔
          ∃ l', f.enter l name = .ok l' ∧ steps.foldlM f.enter l' = .ok m :=
        ⟨bind_eq_ok, fun ⟨l', h₁, h₂⟩ ↦ by rw [List.foldlM_cons, h₁]; exact h₂⟩
      simp only [hstep, enter_ok_iff, h, hp, ih]
  rw [reach_ok_iff, reach_ok_iff, hfold]

/-- The place of a file. A path that ends in a slash is none, and a name has at most 255 bytes. -/
def Stands (files : Files) (name : String) (l : Location) : Prop :=
  ∃ d last, files.reach name = .ok (d, last) ∧ files.permit .search d = .ok () ∧
    l = d.child last ∧ (Path.ofString name).slashed = false ∧ files.isDirectory l = false ∧
    last.utf8ByteSize ≤ 255

theorem Stands.location_eq (h : files.Stands name l) : l = (Path.ofString name).location := by
  obtain ⟨d, last, hr, -, rfl, -⟩ := h
  exact (reach_ok hr).2

theorem stands_iff (h : ∀ l, files'.isDirectory l = files.isDirectory l)
    (hp : ∀ p l, files'.permit p l = files.permit p l) :
    files'.Stands name l ↔ files.Stands name l := by
  simp only [Stands, reach_congr h hp, h, hp]

theorem fetch_ok_iff : files.fetch name = .ok content ↔
    ∃ l, files.Stands name l ∧ files.permit .read l = .ok () ∧ files.find? l = some content := by
  unfold fetch Stands
  constructor
  · intro h
    obtain ⟨⟨d, last⟩, hr, h⟩ := bind_eq_ok h
    obtain ⟨entry, hentry, h⟩ := bind_eq_ok h
    obtain ⟨hsearch, rfl | ⟨hd, hlen, rfl⟩⟩ := lookUp_ok hentry
    · obtain ⟨_, -, h⟩ := bind_eq_ok h
      cases h
    · cases hf : files.find? (d.child last) with
      | none =>
        rw [hf] at h
        cases h
      | some content' =>
        rw [hf] at h
        simp only [Option.elim_some] at h
        split at h
        · cases h
        · rename_i hs
          obtain ⟨_, hread, h⟩ := bind_eq_ok h
          cases h
          exact ⟨_, ⟨d, last, hr, hsearch, rfl, by simpa using hs, hd, hlen⟩, hread, hf⟩
  · rintro ⟨_, ⟨d, last, hr, hsearch, rfl, hs, hd, hlen⟩, hread, hf⟩
    rw [hr]
    simp only [bind, Except.bind, lookUp_eq hsearch, hd, hf, hs, hread, Nat.not_lt.mpr hlen,
      Bool.false_eq_true, if_false, Option.elim_some]

theorem content?_eq_some_iff : files.content? name = some content ↔
    files.fetch name = .ok content := by
  unfold content?
  cases files.fetch name <;> simp [Except.toOption]

theorem fromUTF8?_toUTF8 (text : String) : String.fromUTF8? text.toUTF8 = some text :=
  dif_pos text.isValidUTF8

theorem read_of_fetch (h : files.fetch name = .ok text.toUTF8) : files.read name = .ok text := by
  rw [read, h]
  simp only [bind, Except.bind, fromUTF8?_toUTF8]

theorem write_ok_iff : files.write name text = .ok files' ↔
    ∃ l, files.Stands name l ∧ files.permit .write l = .ok () ∧
      files' = { files with entries := replace l text.toUTF8 files.entries } := by
  unfold write Stands
  constructor
  · intro h
    obtain ⟨⟨d, last⟩, hr, h⟩ := bind_eq_ok h
    simp only at h
    split at h
    · cases h
    · rename_i hs
      obtain ⟨entry, hentry, h⟩ := bind_eq_ok h
      obtain ⟨hsearch, rfl | ⟨hd, hlen, rfl⟩⟩ := lookUp_ok hentry
      · cases h
      · have hfiles : ∃ u, files.permit .write (d.child last) = .ok u ∧
            (.ok { files with entries := replace (d.child last) text.toUTF8 files.entries } :
              Except FileError Files) = .ok files' := by
          cases hf : files.find? (d.child last) <;> rw [hf] at h <;> exact bind_eq_ok h
        obtain ⟨_, hwrite, h⟩ := hfiles
        cases h
        exact ⟨_, ⟨d, last, hr, hsearch, rfl, by simpa using hs, hd, hlen⟩, hwrite, rfl⟩
  · rintro ⟨_, ⟨d, last, hr, hsearch, rfl, hs, hd, hlen⟩, hwrite, rfl⟩
    rw [hr]
    simp only [bind, Except.bind, lookUp_eq hsearch, hd, hs, Nat.not_lt.mpr hlen,
      Bool.false_eq_true, if_false]
    cases files.find? (d.child last) <;> simp only [Option.elim_none, Option.elim_some, hwrite]

theorem lookup_replace (l m : Location) (content : ByteArray)
    (entries : List (Location × ByteArray)) :
    (replace l content entries).lookup m = if m = l then some content else entries.lookup m := by
  have hne {k : Location} (h : m ≠ k) : (m == k) = false := by simpa using h
  induction entries with
  | nil =>
    by_cases h : m = l
    · simp [replace, h]
    · simp [replace, List.lookup_cons, h, hne h]
  | cons e entries ih =>
    obtain ⟨k, t⟩ := e
    rw [replace]
    by_cases hk : k = l
    · subst hk
      by_cases h : m = k
      · simp [h]
      · simp [List.lookup_cons, h, hne h]
    · by_cases h : m = k
      · subst h
        simp [hk]
      · simp [List.lookup_cons, hk, hne h, ih]

theorem exists_mem_replace {q : Location → Prop} (entries : List (Location × ByteArray)) :
    (∃ e ∈ replace l content entries, q e.1) ↔ q l ∨ ∃ e ∈ entries, q e.1 := by
  induction entries with
  | nil => simp [replace]
  | cons e entries ih =>
    obtain ⟨k, t⟩ := e
    rw [replace]
    by_cases hk : k = l
    · subst hk
      simp
    · simp only [if_neg hk, List.exists_mem_cons_iff, ih]
      exact or_left_comm

/-- A file that is put into a directory makes no new one. -/
theorem isDirectory_replace (h : files.Stands name l) (m : Location) :
    ({ files with entries := replace l content files.entries } : Files).isDirectory m =
      files.isDirectory m := by
  obtain ⟨d, last, hr, -, rfl, -⟩ := h
  rw [Bool.eq_iff_iff, isDirectory_iff, isDirectory_iff,
    exists_mem_replace (q := fun k ↦ m <+: k ∧ m ≠ k)]
  constructor
  · rintro (hm | hm | ⟨hm, hne⟩ | hm)
    · exact .inl hm
    · exact .inr (.inl hm)
    · have hd := (reach_ok hr).1
      exact isDirectory_iff.mp (isDirectory_of_around (Location.prefix_of_child hm hne) hd)
    · exact .inr (.inr hm)
  · rintro (hm | hm | hm)
    · exact .inl hm
    · exact .inr (.inl hm)
    · exact .inr (.inr (.inr hm))

/-- What a write has done. The file holds the text, and is read so unless the system refuses to read
it. Files in other places hold what they held, and paths to them lead where they led. -/
structure Updated (files : Files) (name text : String) (files' : Files) : Prop where
  find?_eq : files'.find? (Path.ofString name).location = some text.toUTF8
  read_eq : files.permit .read (Path.ofString name).location = .ok () → files'.read name = .ok text
  find?_other : ∀ l, l ≠ (Path.ofString name).location → files'.find? l = files.find? l
  content?_other : ∀ other, (Path.ofString other).location ≠ (Path.ofString name).location →
    files'.content? other = files.content? other

theorem write_ok (h : files.write name text = .ok files') : Updated files name text files' := by
  obtain ⟨l, hl, -, rfl⟩ := write_ok_iff.mp h
  have hsame {n : String} {k : Location} :
      ({ files with entries := replace l text.toUTF8 files.entries } : Files).Stands n k ↔
        files.Stands n k := stands_iff (isDirectory_replace hl) fun _ _ ↦ rfl
  have hfind (k : Location) :
      ({ files with entries := replace l text.toUTF8 files.entries } : Files).find? k =
        if k = l then some text.toUTF8 else files.find? k := lookup_replace l k _ _
  obtain rfl := hl.location_eq
  refine ⟨by rw [hfind, if_pos rfl], fun hread ↦ read_of_fetch ?_, fun k hk ↦ ?_, ?_⟩
  · exact fetch_ok_iff.mpr ⟨_, hsame.mpr hl, hread, by rw [hfind, if_pos rfl]⟩
  · rw [hfind, if_neg hk]
  · intro other hother
    refine Option.ext fun content ↦ ?_
    rw [content?_eq_some_iff, content?_eq_some_iff, fetch_ok_iff, fetch_ok_iff]
    refine exists_congr fun k ↦ ?_
    rw [hsame, and_congr_right_iff]
    intro hk
    rw [hfind, if_neg fun he ↦ hother (hk.location_eq.symm.trans he)]
    rfl

end Files

end ThreeAddress.Command
