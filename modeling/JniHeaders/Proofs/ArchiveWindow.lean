import JniHeaders.Archive.File

/-!
Archives behind a header. Places are shifted by the size of the header on the way in and on the way
out, and a place in the header can't be gone to. So whoever reads the archive sees what there is to
see in a file of its own. After a seek that failed this holds only if nothing is read before the
next seek, since the file may have been moved into the header.
-/

namespace JniHeaders

/-- Whether a target depends on where reading has come to. -/
def SeekFrom.isRelative : SeekFrom → Bool
  | current _ => true
  | _ => false

/-- A place is read from only where it is known. It may not be known at first, and it never is after
a seek that failed. -/
def FileAccess.Oriented {α : Type} : Bool → FileAccess α → Prop
  | _, done _ => True
  | known, read _ next => known ∧ ∀ bytes, (next bytes).Oriented true
  | known, seek target next =>
    (target.isRelative → known) ∧ (∀ place, (next (some place)).Oriented true) ∧
      (next none).Oriented false

/-- The archive that follows a header in one file with it. The position counts the header. -/
def ArchiveFile.behind (header data : ByteArray) (position : Nat) : ArchiveFile :=
  ⟨⟨header ++ data, position⟩, header.size⟩

namespace ArchiveFile

variable {header data : ByteArray} {position place : Nat}

theorem read_behind (header data : ByteArray) (position length : Nat) :
    Seekable.read length (behind header data (header.size + position)) =
      ((Seekable.read length (OpenFile.mk data position)).1,
        behind header data
          (header.size + (Seekable.read length (OpenFile.mk data position)).2.position)) := by
  have hbytes : (header ++ data).extract (header.size + position)
      (header.size + position + length) = data.extract position (position + length) := by
    rw [Nat.add_assoc, ByteArray.extract_append_size_add]
  simp only [Seekable.read, behind, hbytes]
  rw [Nat.add_assoc]

/-- A distance leads behind the header, or into it and without it nowhere. -/
theorem toNat?_behind (size base : Nat) (distance : Int) :
    (∃ place, (base + distance).toNat? = some place ∧
      ((size + base : Nat) + distance).toNat? = some (size + place)) ∨
    ((base + distance).toNat? = none ∧
      ∀ place, ((size + base : Nat) + distance).toNat? = some place → place < size) := by
  have htoNat : ∀ n : Int, n.toNat? = if 0 ≤ n then some n.toNat else none := by
    rintro (n | n) <;> rfl
  simp only [htoNat]
  by_cases hplace : 0 ≤ base + distance
  · refine Or.inl ⟨(base + distance).toNat, if_pos hplace, ?_⟩
    rw [if_pos (by omega)]
    exact congrArg some (by omega)
  · refine Or.inr ⟨if_neg hplace, fun place h => ?_⟩
    split at h
    · cases h
      omega
    · cases h

theorem place?_behind {target : SeekFrom}
    (htarget : target.isRelative → position = header.size + place) :
    (∃ goal, target.place? data.size place = some goal ∧
      (target.shift header.size).place? (header ++ data).size position =
        some (header.size + goal)) ∨
    (target.place? data.size place = none ∧
      ∀ goal, (target.shift header.size).place? (header ++ data).size position = some goal →
        goal < header.size) := by
  rw [ByteArray.size_append]
  cases target with
  | start goal => exact Or.inl ⟨goal, rfl, congrArg some (Nat.add_comm _ _)⟩
  | fromEnd distance => exact toNat?_behind header.size data.size distance
  | current distance =>
    rw [htarget rfl]
    exact toNat?_behind header.size place distance

/-- A seek leads to the same place as without the header, or fails as it would without it. -/
theorem seek_behind {target : SeekFrom}
    (htarget : target.isRelative → position = header.size + place) :
    (∃ goal, Seekable.seek target (OpenFile.mk data place) = (some goal, OpenFile.mk data goal) ∧
      Seekable.seek target (behind header data position) =
        (some goal, behind header data (header.size + goal))) ∨
    (Seekable.seek target (OpenFile.mk data place) = (none, OpenFile.mk data place) ∧
      ∃ other, Seekable.seek target (behind header data position) =
        (none, behind header data other)) := by
  simp only [Seekable.seek, behind]
  rcases place?_behind htarget with ⟨goal, hplain, hshifted⟩ | ⟨hplain, hshifted⟩
  · refine Or.inl ⟨goal, ?_, ?_⟩
    · rw [hplain]
    · rw [hshifted]
      simp
  · refine Or.inr ⟨by rw [hplain], ?_⟩
    cases hgoal : (target.shift header.size).place? (header ++ data).size position with
    | none => exact ⟨position, rfl⟩
    | some goal => exact ⟨goal, by simp [Nat.not_le.mpr (hshifted goal hgoal)]⟩

/-- What comes of reading an archive behind a header is what comes of reading the archive. -/
theorem run_behind {α : Type} {access : FileAccess α} {known : Bool} (h : access.Oriented known)
    (hplace : known → position = header.size + place) :
    access.run (behind header data position) = access.run (OpenFile.mk data place) := by
  induction access generalizing known position place with
  | done result => rfl
  | read length next ih =>
    obtain ⟨hknown, hnext⟩ := h
    rw [hplace hknown, FileAccess.run, FileAccess.run, read_behind]
    exact ih _ (hnext _) fun _ => rfl
  | seek target next ih =>
    obtain ⟨hrelative, hfound, hfailed⟩ := h
    rw [FileAccess.run, FileAccess.run]
    rcases seek_behind fun htarget => hplace (hrelative htarget) with
      ⟨goal, hplain, hbehind⟩ | ⟨hplain, other, hbehind⟩
    · rw [hplain, hbehind]
      exact ih _ (hfound goal) fun _ => rfl
    · rw [hplain, hbehind]
      exact ih _ hfailed nofun

end ArchiveFile

end JniHeaders
