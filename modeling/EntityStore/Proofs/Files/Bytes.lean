import EntityStore.Proofs.Files.Tree

/-! Files as bytes, which may come in pieces that are no texts by themselves. -/
namespace EntityStore

namespace Content

def bytes : Content → ByteArray
  | text s => s.toUTF8
  | binary bs => ⟨bs.toArray⟩

theorem ofBytes_toUTF8 (s : String) : ofBytes s.toUTF8 = text s := by
  have hread : String.fromUTF8? s.toUTF8 = some s := dif_pos s.isValidUTF8
  unfold ofBytes
  rw [hread]

theorem toList_loop_eq (bs : ByteArray) (i : ℕ) (before : List UInt8) :
    ByteArray.toList.loop bs i before = before.reverse ++ bs.data.toList.drop i := by
  fun_induction ByteArray.toList.loop bs i before with
  | case1 i before hi ih =>
    have hlen : i < bs.data.toList.length := hi
    have hget : bs.get! i = bs.data.toList[i] := by
      show bs.data[i]! = _
      rw [getElem!_pos bs.data i hi, Array.getElem_toList]
    rw [ih, List.reverse_cons, List.append_assoc, List.drop_eq_getElem_cons hlen, hget]
    rfl
  | case2 i before hi =>
    have hlen : bs.data.toList.length ≤ i := Nat.not_lt.mp hi
    rw [List.drop_eq_nil_of_le hlen, List.append_nil]

theorem bytes_ofBytes (bs : ByteArray) : (ofBytes bs).bytes = bs := by
  unfold ofBytes String.fromUTF8?
  by_cases hvalid : bs.IsValidUTF8
  · rw [dif_pos hvalid]
    rfl
  · have hlist : bs.toList = bs.data.toList := by
      rw [ByteArray.toList, toList_loop_eq]
      rfl
    rw [dif_neg hvalid]
    show (⟨bs.toList.toArray⟩ : ByteArray) = bs
    rw [hlist, Array.toArray_toList]

end Content

namespace Tree

variable {t t' : Tree} {p : Path}

theorem put_put (t : Tree) (p : Path) (m n : Node) : (t.put p m).put p n = t.put p n := by
  unfold put
  rw [Assoc.insert_insert]

theorem erase_put (h : t.node? p = none) (n : Node) : (t.put p n).erase p = t := by
  have htwice := erase_put_of_node? h n n
  rwa [put_put] at htwice

/-- Adds bytes to the end of a file. -/
def appendBytes (t : Tree) (p : Path) (bs : ByteArray) : Except IoError Tree := do
  let old ← t.read p
  return t.put p (.file (.ofBytes (old.bytes ++ bs)))

theorem appendBytes_eq_ok_iff {bs : ByteArray} : t.appendBytes p bs = .ok t' ↔
    ∃ c, t.node? p = some (.file c) ∧ t.put p (.file (.ofBytes (c.bytes ++ bs))) = t' := by
  unfold appendBytes
  simp only [Except.bind_eq_ok_iff, read_eq_ok_iff, Except.pure_eq_ok, Except.ok.injEq]

/-- Text is added as its bytes are. -/
theorem appendBytes_toUTF8 {text : String} (h : t.append p text = .ok t') :
    t.appendBytes p text.toUTF8 = .ok t' := by
  obtain ⟨old, hold, rfl⟩ := append_eq_ok_iff.mp h
  have hbytes : Content.bytes (.text old) ++ text.toUTF8 = (old ++ text).toUTF8 :=
    String.toByteArray_append.symm
  refine appendBytes_eq_ok_iff.mpr ⟨_, hold, ?_⟩
  rw [hbytes, Content.ofBytes_toUTF8]

end Tree

end EntityStore
