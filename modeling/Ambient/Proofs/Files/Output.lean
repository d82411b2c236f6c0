import Ambient.Files.Output
import Ambient.Proofs.Files.Tree

/-!
# What an output stands for

An open output stands for bytes, of which some are in the file and the rest
in the buffer (`Output.Carries`). It is opened with none, every write adds
its text, wherever the buffer breaks it, and when the output is released the
file has exactly these bytes. A device in its place keeps none of them.
-/

namespace Ambient

theorem toUTF8_append (s t : String) : (s ++ t).toUTF8 = s.toUTF8 ++ t.toUTF8 :=
  ByteArray.ext rfl

theorem append_toUTF8_empty (content : ByteArray) : content ++ "".toUTF8 = content :=
  ByteArray.append_empty

namespace FileSystem

variable {fs fs' : FileSystem} {location : Location} {content : ByteArray} {text : String}

/-- Added text goes behind what the output has got so far. -/
theorem append_fill (h : (fs.fill location content).append location text = .ok fs') :
    fs' = fs.fill location (content ++ text.toUTF8) := by
  by_cases htext : text = ""
  · subst htext
    cases h
    rw [append_toUTF8_empty]
  · rw [append, if_neg htext] at h
    cases hdevice : fs.isDevice location with
    | true =>
      simp only [fill, hdevice, if_true] at h ⊢
      split at h
      · rename_i hat
        simp [isDevice, hat] at hdevice
      · cases h
      · exact (Except.ok.inj h).symm
    | false =>
      simp only [fill, hdevice, Bool.false_eq_true, if_false, at?_write, write_write] at h ⊢
      exact (Except.ok.inj h).symm

/-- Only a device refuses text. -/
theorem isDevice_of_append_fill {cause : OsError}
    (h : (fs.fill location content).append location text = .error cause) :
    fs.isDevice location = true := by
  cases hdevice : fs.isDevice location with
  | true => rfl
  | false =>
    simp only [append, fill, hdevice, Bool.false_eq_true, if_false, at?_write] at h
    split at h <;> cases h

end FileSystem

namespace Output

variable {fs fs' : FileSystem} {location : Location} {o o' : Output} {bytes : ByteArray}
variable {path text : String}

/-- The output was opened at a location of the tree `fs` and has got these
bytes: the file has the first of them, the buffer the others. -/
def Carries (o : Output) (fs : FileSystem) (location : Location) (bytes : ByteArray) : Prop :=
  o.location = location ∧
    ∃ content, o.fs = fs.fill location content ∧ content ++ o.pending.toUTF8 = bytes

theorem carries_of_create (h : fs.create path = .ok (location, fs')) :
    (Output.mk path location "" fs').Carries fs location ByteArray.empty :=
  ⟨rfl, ByteArray.empty, (FileSystem.create_eq_ok h).2, rfl⟩

theorem Carries.flush (h : o.Carries fs location bytes) (hflush : o.flush = .ok o') :
    o'.Carries fs location bytes ∧ o'.pending = "" := by
  obtain ⟨rfl, content, hfs, rfl⟩ := h
  obtain ⟨fs', happend, rfl⟩ := map_eq_ok_iff.1 hflush
  rw [hfs] at happend
  exact ⟨⟨rfl, _, FileSystem.append_fill happend, append_toUTF8_empty _⟩, rfl⟩

/-- A text that the buffer has no room for empties it first; then a text
that is no shorter than the buffer goes straight into the file. -/
theorem tryWrite_eq (o : Output) (text : String) :
    o.tryWrite text =
      ((if bufferSize < o.pending.utf8ByteSize + text.utf8ByteSize then o.flush else .ok o) >>=
        fun o =>
          if bufferSize ≤ text.utf8ByteSize then
            (o.fs.append o.location text).map fun fs => { o with fs := fs }
          else .ok { o with pending := o.pending ++ text }) := by
  rw [tryWrite]
  split <;> rfl

/-- A write that succeeds adds its text. -/
theorem Carries.tryWrite (h : o.Carries fs location bytes) (hwrite : o.tryWrite text = .ok o') :
    o'.Carries fs location (bytes ++ text.toUTF8) := by
  rw [tryWrite_eq] at hwrite
  obtain ⟨o₁, hflush, hwrite⟩ := bind_eq_ok_iff.1 hwrite
  -- a text that bypasses the buffer finds it empty
  obtain ⟨⟨hlocation, content, hfs, hbytes⟩, hempty⟩ : o₁.Carries fs location bytes ∧
      (bufferSize ≤ text.utf8ByteSize → o₁.pending = "") := by
    split at hflush
    · exact (h.flush hflush).imp_right fun hpending _ => hpending
    · rename_i hfits
      cases hflush
      exact ⟨h, fun hlong => String.utf8ByteSize_eq_zero_iff.1 (by omega)⟩
  split at hwrite
  · rename_i hlong
    obtain ⟨fs', happend, rfl⟩ := map_eq_ok_iff.1 hwrite
    rw [hfs, hlocation] at happend
    rw [hempty hlong, append_toUTF8_empty] at hbytes
    refine ⟨hlocation, content ++ text.toUTF8, FileSystem.append_fill happend, ?_⟩
    rw [hempty hlong, hbytes, append_toUTF8_empty]
  · cases hwrite
    refine ⟨hlocation, content, hfs, ?_⟩
    rw [toUTF8_append, ← ByteArray.append_assoc, hbytes]

theorem Carries.write (h : o.Carries fs location bytes) (hwrite : o.write text = (.ok (), o')) :
    o'.Carries fs location (bytes ++ text.toUTF8) := by
  rw [Output.write] at hwrite
  cases htry : o.tryWrite text with
  | error cause => simp [htry] at hwrite
  | ok o₁ =>
    simp only [htry, Prod.mk.injEq, true_and] at hwrite
    exact hwrite ▸ h.tryWrite htry

/-- Texts that are written one after the other are written as one. -/
theorem Carries.writeAll {texts : List String} (h : o.Carries fs location bytes)
    (hwrite : o.writeAll texts = (.ok (), o')) :
    o'.Carries fs location (bytes ++ (String.join texts).toUTF8) := by
  induction texts generalizing o bytes with
  | nil =>
    cases hwrite
    rw [String.join_nil, append_toUTF8_empty]
    exact h
  | cons text texts ih =>
    rw [Output.writeAll] at hwrite
    split at hwrite
    · rename_i o₁ hfirst
      have hall := ih (h.write hfirst) hwrite
      rwa [ByteArray.append_assoc, ← toUTF8_append, ← String.join_cons] at hall
    · rename_i hfailed
      exact absurd hwrite (hfailed o')

/-- **Finishing an output.** It succeeds only for a file, which then has all
bytes that the output got. -/
theorem Carries.finish (h : o.Carries fs location bytes) (hfinish : o.finish = (.ok (), fs')) :
    fs.isDevice location = false ∧ fs' = fs.fill location bytes := by
  rw [Output.finish] at hfinish
  cases hflush : o.flush with
  | error cause => simp [hflush] at hfinish
  | ok o₁ =>
    obtain ⟨⟨rfl, content, hfs, hbytes⟩, hpending⟩ := h.flush hflush
    rw [hpending, append_toUTF8_empty] at hbytes
    simp only [hflush] at hfinish
    split at hfinish
    · cases hfinish
    · cases hfinish
    · rename_i hnull hfull
      obtain rfl : o₁.fs = fs' := congrArg Prod.snd hfinish
      refine ⟨?_, hbytes ▸ hfs⟩
      -- a device would stand there still
      cases hdevice : fs.isDevice o₁.location with
      | false => rfl
      | true =>
        rw [FileSystem.fill, if_pos hdevice] at hfs
        rw [hfs] at hnull hfull
        rw [FileSystem.isDevice] at hdevice
        split at hdevice
        · rename_i hat
          exact absurd hat hnull
        · rename_i hat
          exact absurd hat hfull
        · cases hdevice

/-- What has reached the file when one text was written: all of it if it is no
shorter than the buffer, else nothing. -/
def reached (text : String) : String :=
  if bufferSize ≤ text.utf8ByteSize then text else ""

/-- The first text that is written stays in the buffer unless it is too long
for it. -/
theorem fs_of_write_first (hopen : fs.create path = .ok (location, fs'))
    (hwrite : (Output.mk path location "" fs').write text = (.ok (), o)) :
    o.fs = fs.fill location (reached text).toUTF8 := by
  obtain ⟨-, hfs'⟩ := FileSystem.create_eq_ok hopen
  rw [Output.write] at hwrite
  cases htry : (Output.mk path location "" fs').tryWrite text with
  | error cause => simp [htry] at hwrite
  | ok o₁ =>
    simp only [htry, Prod.mk.injEq, true_and] at hwrite
    subst hwrite
    have hflush : (Output.mk path location "" fs').flush = .ok ⟨path, location, "", fs'⟩ := rfl
    rw [tryWrite_eq, hflush, ite_self] at htry
    change (if bufferSize ≤ text.utf8ByteSize then _ else _) = _ at htry
    rw [reached]
    split at htry
    · rename_i hlong
      obtain ⟨left, happend, rfl⟩ := map_eq_ok_iff.1 htry
      rw [hfs'] at happend
      rw [if_pos hlong, FileSystem.append_fill happend, ByteArray.empty_append]
    · rename_i hshort
      cases htry
      rw [if_neg hshort]
      exact hfs'

/-- **Releasing an output.** The file has all bytes that the output got. -/
theorem Carries.release (h : o.Carries fs location bytes) :
    o.release = fs.fill location bytes := by
  rw [Output.release]
  cases hflush : o.flush with
  | ok o₁ =>
    obtain ⟨⟨-, content, hfs, hbytes⟩, hpending⟩ := h.flush hflush
    rw [hpending, append_toUTF8_empty] at hbytes
    exact hbytes ▸ hfs
  | error cause =>
    obtain ⟨rfl, content, hfs, rfl⟩ := h
    rw [Output.flush, hfs] at hflush
    cases happend : (fs.fill o.location content).append o.location o.pending with
    | ok fs' => simp [happend, Except.map] at hflush
    | error cause =>
      simp [hfs, FileSystem.fill, FileSystem.isDevice_of_append_fill happend]

end Output

end Ambient
