import FunctionWasm.Cache.Store

/-!
# Confinement — the paths that a store names

The file name of a digest is the digest with its colons replaced, and nothing else is checked before
it is joined to the directory of the store.

* `NamesChild` says when a digest names a direct child of a directory.
* `get_within_iff` says when every path that `get` names is a direct child, `put_within` that `put`
  under the digest of the content names no other.
-/

namespace FunctionWasm

open Disk
open RegistryClient (contentDigest)

/-! ## Names of digests -/

/-- The digest as a file name has one component, which is not `..`; or it is the path of a direct
child already. -/
def NamesChild (dir digest : Text) : Prop :=
  if (fileName digest).head? = some '/' then DirectChild dir (fileName digest)
  else ∃ x, x ≠ "..".toList ∧ components (fileName digest) = [x]

theorem directChild_entryPath (st : Store) {digest : Text} :
    DirectChild st.dir (st.entryPath digest) ↔ NamesChild st.dir digest := by
  unfold Store.entryPath NamesChild
  split
  · next habsolute => rw [joinPath, if_pos habsolute]
  · next hrelative => exact directChild_joinPath hrelative

/-- No hexadecimal digit is a slash. -/
theorem not_slash_hexEncode (bs : Bytes) : '/' ∉ hexEncode bs := by
  have hdigit : ∀ n < 16, hexDigit n ≠ '/' := by decide
  intro hmem
  rcases List.mem_flatMap.1 hmem with ⟨b, -, hb⟩
  have hhigh : b.toNat / 16 < 16 := Nat.div_lt_of_lt_mul b.toNat_lt
  have hlow : b.toNat % 16 < 16 := Nat.mod_lt _ (by decide)
  rcases List.mem_cons.1 hb with hb | hb
  · exact hdigit _ hhigh hb.symm
  · exact hdigit _ hlow (List.mem_singleton.1 hb).symm

/-- The file name of a digest that is `sha256:` and something without slashes. -/
structure PlainName (name : Text) : Prop where
  slash : '/' ∉ name
  long : 2 < name.length

theorem PlainName.append {name suffix : Text} (h : PlainName name) (hsuffix : '/' ∉ suffix) :
    PlainName (name ++ suffix) where
  slash := by simp [h.slash, hsuffix]
  long := by
    have hlong := h.long
    rw [List.length_append]
    omega

theorem PlainName.ne_nil {name : Text} (h : PlainName name) : name ≠ [] := by
  rintro rfl
  exact absurd h.long (by decide)

theorem plainName_of_prefix {hex : Text} (hslash : '/' ∉ hex) :
    PlainName (fileName ("sha256:".toList ++ hex)) := by
  have hprefix : fileName "sha256:".toList = "sha256-".toList := by decide
  have hname : fileName ("sha256:".toList ++ hex) = "sha256-".toList ++ fileName hex := by
    rw [← hprefix]
    exact List.map_append
  rw [hname]
  refine PlainName.append ⟨by decide, by decide⟩ ?_
  intro hmem
  rcases List.mem_map.1 hmem with ⟨c, hc, hslash'⟩
  split at hslash'
  · exact absurd hslash' (by decide)
  · exact hslash (hslash' ▸ hc)

/-- The digest of some content names a direct child of every directory. -/
theorem plainName_contentDigest [RegistryLibrary] (b : Bytes) :
    PlainName (fileName (contentDigest b)) :=
  plainName_of_prefix (not_slash_hexEncode _)

theorem PlainName.directChild {name dir : Text} (h : PlainName name) :
    DirectChild dir (joinPath dir name) :=
  directChild_of_name h.slash h.long

/-- A digest that passed the check of a source names a direct child of every directory. -/
theorem namesChild_of_valid {digest : Text} (h : digestIsValid digest = true) (dir : Text) :
    NamesChild dir digest := by
  rcases digestIsValid_eq_true.1 h with ⟨hex, heq, -, hall⟩
  have hslash : '/' ∉ hex := by
    intro hmem
    exact absurd (hall _ hmem) (by decide)
  have hplain : PlainName (fileName digest) := by
    rw [heq]
    exact plainName_of_prefix hslash
  exact (directChild_entryPath ⟨dir, true, none⟩).1 hplain.directChild

theorem namesChild_contentDigest [RegistryLibrary] (b : Bytes) (dir : Text) :
    NamesChild dir (contentDigest b) :=
  (directChild_entryPath ⟨dir, true, none⟩).1 (plainName_contentDigest b).directChild

/-! ## The operations of a store -/

/-- A write through a temporary file names the target and the temporary file. -/
theorem writeAtomic_within {P : Text → Prop} {target : Text} {b : Bytes} {d : Disk}
    (htarget : P target) (htmp : ∀ nonce, P (target ++ ".put-".toList ++ hexEncode nonce)) :
    Within P d (writeAtomic target b d).2 := by
  unfold writeAtomic
  dsimp only
  generalize htmpName : target ++ ".put-".toList ++ hexEncode d.nonce = tmp
  have hname : P tmp := htmpName ▸ htmp d.nonce
  have hwrite : Within P d (d.write tmp b).2 :=
    .of_op (write_log tmp b d) (by simpa [FileOp.paths] using hname)
  have hremove : ∀ d' : Disk, Within P d' (d'.remove tmp) := fun d' =>
    .of_op (remove_log tmp d') (by simpa [FileOp.paths] using hname)
  have hrename : ∀ d' : Disk, Within P d' (d'.rename tmp target).2 := fun d' =>
    .of_op (rename_log tmp target d') (by simp [FileOp.paths, hname, htarget])
  rcases hfirst : d.write tmp b with ⟨_ | _, d1⟩
  · rw [hfirst] at hwrite
    exact hwrite.trans (hremove d1)
  · rw [hfirst] at hwrite
    dsimp only
    have hsecond := hrename d1
    rcases hmoved : d1.rename tmp target with ⟨_ | _, d2⟩
    · rw [hmoved] at hsecond
      exact (hwrite.trans hsecond).trans (hremove d2)
    · rw [hmoved] at hsecond
      exact hwrite.trans hsecond

section Operations

variable [RegistryLibrary]

/-- What `get` does to the directory, beginning with the read of the entry. -/
theorem get_log (st : Store) (digest : Text) (d : Disk) :
    ∃ content rest,
      (st.get digest d).2.log = d.log ++ .read (st.entryPath digest) content :: rest ∧
        ∀ op ∈ rest, op.paths = [st.entryPath digest] := by
  have hread := read_log (st.entryPath digest) d
  refine ⟨d.content (st.entryPath digest), ?_⟩
  unfold Store.get
  dsimp only
  rcases hfound : d.read (st.entryPath digest) with ⟨_ | b, d'⟩
  · rw [hfound] at hread
    exact ⟨[], hread, by simp⟩
  · rw [hfound] at hread
    dsimp only at hread ⊢
    split
    · exact ⟨[.remove (st.entryPath digest)], by simp [hread], by simp [FileOp.paths]⟩
    · exact ⟨[.touch (st.entryPath digest)], by simp [hread], by simp [FileOp.paths]⟩

/-- Every path that `get` names has some property exactly when the path of the entry has. -/
theorem get_within_iff {P : Text → Prop} {st : Store} {digest : Text} {d : Disk} :
    Within P d (st.get digest d).2 ↔ P (st.entryPath digest) := by
  rcases get_log st digest d with ⟨content, rest, hlog, hrest⟩
  constructor
  · intro h
    exact h.of_mem hlog _ (List.mem_singleton_self _)
  · intro h
    refine ⟨_, hlog, ?_⟩
    intro op hop p hp
    have hpaths : op.paths = [st.entryPath digest] := by
      rcases List.mem_cons.1 hop with rfl | hop
      · rfl
      · exact hrest op hop
    rw [hpaths, List.mem_singleton] at hp
    exact hp ▸ h

variable [MacLibrary]

/-- A put under the digest of the content names direct children only. -/
theorem put_within (st : Store) {digest : Text} {b : Bytes} (d : Disk)
    (hdigest : contentDigest b = digest) :
    Within (DirectChild st.dir) d (st.put digest b d).2 := by
  have hplain : PlainName (fileName digest) := hdigest ▸ plainName_contentDigest b
  have hchild : ∀ suffix, '/' ∉ suffix → DirectChild st.dir (st.entryPath digest ++ suffix) := by
    intro suffix hsuffix
    unfold Store.entryPath
    rw [joinPath_append hplain.ne_nil hplain.slash]
    exact (hplain.append hsuffix).directChild
  -- the temporary file of the entry, and that of its sidecar
  have htmp : ∀ nonce, '/' ∉ ".put-".toList ++ hexEncode nonce := by
    intro nonce
    simp [not_slash_hexEncode nonce]
  have hentry : ∀ content, Within (DirectChild st.dir) d
      (writeAtomic (st.entryPath digest) content d).2 := by
    intro content
    apply writeAtomic_within
    · exact hplain.directChild
    · intro nonce
      rw [List.append_assoc]
      exact hchild _ (htmp nonce)
  have hsidecar : ∀ content d', Within (DirectChild st.dir) d'
      (writeAtomic (macPath (st.entryPath digest)) content d').2 := by
    intro content d'
    apply writeAtomic_within
    · exact hchild _ (by decide)
    · intro nonce
      unfold macPath
      rw [List.append_assoc, List.append_assoc]
      apply hchild
      simp [not_slash_hexEncode nonce]
  unfold Store.put
  split
  · exact .refl
  · dsimp only
    have hfirst := hentry b
    rcases hwritten : writeAtomic (st.entryPath digest) b d with ⟨_ | _, d1⟩
    · rw [hwritten] at hfirst
      exact hfirst
    · rw [hwritten] at hfirst
      dsimp only
      split
      · exact hfirst
      · exact hfirst.trans (hsidecar _ d1)

end Operations
end FunctionWasm
