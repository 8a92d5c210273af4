import WikiDocs.Line.FileReader
import WikiDocs.Proofs.Directories
import WikiDocs.Proofs.Joining
import WikiDocs.Proofs.Memory
import WikiDocs.Proofs.Pieces

/-!
Files that are written through buffers and read through buffers. What a file
holds on disk, with its buffer behind it, is all that was written to it; writing
changes nothing elsewhere; and a file that does not change meanwhile is read as
the pieces of its content.
-/

namespace WikiDocs

namespace FileTree

variable {tree : FileTree} {place other : Place} {node : Node}

theorem node?_set_self (h : tree.node? place ≠ some .directory) :
    (tree.set place node).node? place = some node := by
  simp only [node?, set, lookup_put]
  split
  · rename_i hspecial
    rw [node?, if_pos hspecial] at h
    exact absurd rfl h
  · exact if_pos trivial

theorem node?_set_of_ne (h : other ≠ place) : (tree.set place node).node? other = tree.node? other := by
  simp only [node?, set, lookup_put, if_neg h]

theorem node?_truncate_self (h : tree.node? place ≠ some .directory) :
    ∃ executable, (tree.truncate place).node? place = some (.file .empty executable) := by
  simp only [truncate]
  split
  · rename_i content executable hfile
    exact ⟨executable, node?_set_self h⟩
  · exact ⟨false, node?_set_self h⟩

theorem node?_truncate_of_ne (h : other ≠ place) :
    (tree.truncate place).node? other = tree.node? other := by
  simp only [truncate]
  split <;> exact node?_set_of_ne h

theorem node?_writeAt_of_ne (h : other ≠ place) (offset : Nat) (bytes : ByteArray) :
    (tree.writeAt place offset bytes).node? other = tree.node? other := by
  simp only [writeAt]
  split
  · exact node?_set_of_ne h
  · rfl

theorem node?_makeExecutable_of_ne (h : other ≠ place) :
    (tree.makeExecutable place).node? other = tree.node? other := by
  simp only [makeExecutable]
  split
  · exact node?_set_of_ne h
  · rfl

theorem ne_directory {content : ByteArray} {executable : Bool}
    (h : tree.node? place = some (.file content executable)) :
    tree.node? place ≠ some .directory := by
  rw [h]
  simp

theorem node?_makeExecutable_self {content : ByteArray} {executable : Bool}
    (h : tree.node? place = some (.file content executable)) :
    (tree.makeExecutable place).node? place = some (.file content true) := by
  simp only [makeExecutable, h]
  exact node?_set_self (ne_directory h)

theorem overwrite_end (content bytes : ByteArray) :
    overwrite content content.size bytes = content ++ bytes := by
  have hgap : (⟨(List.replicate (content.size - content.size) 0).toArray⟩ : ByteArray) = .empty := by
    rw [Nat.sub_self]
    rfl
  have hrest : content.extract (content.size + bytes.size) content.size = .empty :=
    ByteArray.extract_eq_empty_iff.2 (by omega)
  rw [overwrite, hgap, hrest, ByteArray.append_empty, ByteArray.append_empty,
    ByteArray.extract_zero_size]

/-- Bytes that are written at the end of a file are appended to it. -/
theorem node?_writeAt_end {content : ByteArray} {executable : Bool}
    (h : tree.node? place = some (.file content executable)) (bytes : ByteArray) :
    (tree.writeAt place content.size bytes).node? place =
      some (.file (content ++ bytes) executable) := by
  simp only [writeAt, h, overwrite_end]
  exact node?_set_self (ne_directory h)

end FileTree

namespace BufferedFile

variable {file : BufferedFile} {tree : FileTree} {place other : Place} {bytes : ByteArray}

/-- The file at a place holds some bytes, the last of which may be in the buffer still. -/
structure Backs (file : BufferedFile) (tree : FileTree) (place : Place) (bytes : ByteArray) :
    Prop where
  place_eq : file.place = place
  stored : ∃ content executable, tree.node? place = some (.file content executable) ∧
    file.offset = content.size ∧ content ++ file.buffer = bytes

theorem Backs.frame {tree' : FileTree} (h : file.Backs tree place bytes)
    (hnode : tree'.node? place = tree.node? place) : file.Backs tree' place bytes :=
  ⟨h.place_eq, by rw [hnode]; exact h.stored⟩

theorem node?_flush_of_ne (h : other ≠ file.place) :
    (file.flush tree).1.node? other = tree.node? other := by
  simp only [flush, writeThrough]
  split
  · rfl
  · exact FileTree.node?_writeAt_of_ne h _ _

theorem flush_place (tree : FileTree) (file : BufferedFile) :
    (file.flush tree).2.place = file.place := by
  simp only [flush, writeThrough]
  split <;> rfl

theorem isEmpty_iff : bytes.isEmpty = true ↔ bytes = .empty := by
  rw [ByteArray.isEmpty, beq_iff_eq, ByteArray.size_eq_zero_iff]

theorem flush_buffer (tree : FileTree) (file : BufferedFile) :
    (file.flush tree).2.buffer = .empty := by
  simp only [flush, writeThrough]
  split
  · rename_i hempty
    exact isEmpty_iff.1 hempty
  · rfl

theorem Backs.buffered (h : file.Backs tree place bytes) (more : ByteArray) :
    { file with buffer := file.buffer ++ more }.Backs tree place (bytes ++ more) := by
  obtain ⟨content, executable, hnode, hoffset, rfl⟩ := h.stored
  exact ⟨h.place_eq, content, executable, hnode, hoffset, ByteArray.append_assoc.symm⟩

theorem Backs.through (h : file.Backs tree place bytes) (hbuffer : file.buffer = .empty)
    (more : ByteArray) :
    (file.writeThrough tree more).2.Backs (file.writeThrough tree more).1 place (bytes ++ more) := by
  obtain ⟨content, executable, hnode, hoffset, rfl⟩ := h.stored
  have hend := FileTree.node?_writeAt_end hnode more
  refine ⟨h.place_eq, content ++ more, executable, ?_, ?_, ?_⟩
  · rwa [writeThrough, h.place_eq, hoffset]
  · rw [writeThrough, hoffset, ByteArray.size_append]
  · rw [writeThrough, hbuffer, ByteArray.append_empty, ByteArray.append_empty]

theorem Backs.flush (h : file.Backs tree place bytes) :
    (file.flush tree).2.Backs (file.flush tree).1 place bytes := by
  simp only [BufferedFile.flush]
  split
  · exact h
  · obtain ⟨content, executable, hnode, hoffset, rfl⟩ := h.stored
    have hdisk : { file with buffer := .empty }.Backs tree place content :=
      ⟨h.place_eq, content, executable, hnode, hoffset, ByteArray.append_empty⟩
    exact hdisk.through rfl file.buffer

theorem Backs.node? (h : file.Backs tree place bytes) (hbuffer : file.buffer = .empty) :
    ∃ executable, tree.node? place = some (.file bytes executable) := by
  obtain ⟨content, executable, hnode, -, rfl⟩ := h.stored
  rw [hbuffer, ByteArray.append_empty]
  exact ⟨executable, hnode⟩

/-- What writing does first: it makes room for bytes that do not fit. -/
def makeRoom (tree : FileTree) (file : BufferedFile) (bytes : ByteArray) :
    FileTree × BufferedFile :=
  if bufferSize - file.buffer.size < bytes.size then flush tree file else (tree, file)

theorem write_eq (tree : FileTree) (file : BufferedFile) (bytes : ByteArray) :
    file.write tree bytes =
      if bytes.size < bufferSize - file.buffer.size then
        (tree, { file with buffer := file.buffer ++ bytes })
      else
        let room := makeRoom tree file bytes
        if bufferSize ≤ bytes.size then writeThrough room.1 room.2 bytes
        else (room.1, { room.2 with buffer := room.2.buffer ++ bytes }) := rfl

theorem makeRoom_place (tree : FileTree) (file : BufferedFile) (bytes : ByteArray) :
    (makeRoom tree file bytes).2.place = file.place := by
  rw [makeRoom]
  split
  · exact flush_place tree file
  · rfl

theorem node?_makeRoom_of_ne (h : other ≠ file.place) (bytes : ByteArray) :
    (makeRoom tree file bytes).1.node? other = tree.node? other := by
  rw [makeRoom]
  split
  · exact node?_flush_of_ne h
  · rfl

theorem Backs.makeRoom (h : file.Backs tree place bytes) (more : ByteArray) :
    (makeRoom tree file more).2.Backs (makeRoom tree file more).1 place bytes := by
  rw [BufferedFile.makeRoom]
  split
  · exact h.flush
  · exact h

/-- Bytes that fill a whole buffer are written past an empty one. -/
theorem makeRoom_buffer (h : bufferSize ≤ bytes.size) :
    (makeRoom tree file bytes).2.buffer = .empty := by
  rw [makeRoom]
  split
  · exact flush_buffer tree file
  · have hpos : 0 < bufferSize := by decide
    refine ByteArray.size_eq_zero_iff.1 ?_
    dsimp only
    omega

theorem write_place (tree : FileTree) (file : BufferedFile) (bytes : ByteArray) :
    (file.write tree bytes).2.place = file.place := by
  rw [write_eq]
  split
  · rfl
  · split <;> exact makeRoom_place tree file bytes

/-- Writing to a file changes no other place. -/
theorem node?_write_of_ne (h : other ≠ file.place) (bytes : ByteArray) :
    (file.write tree bytes).1.node? other = tree.node? other := by
  have hroom : (makeRoom tree file bytes).1.node? other = tree.node? other :=
    node?_makeRoom_of_ne h bytes
  rw [write_eq]
  split
  · rfl
  · split
    · refine (FileTree.node?_writeAt_of_ne ?_ _ _).trans hroom
      rwa [makeRoom_place]
    · exact hroom

theorem Backs.write (h : file.Backs tree place bytes) (more : ByteArray) :
    (file.write tree more).2.Backs (file.write tree more).1 place (bytes ++ more) := by
  have hroom := h.makeRoom more
  rw [write_eq]
  split
  · exact h.buffered more
  · split
    · rename_i hfull
      exact hroom.through (makeRoom_buffer hfull) more
    · exact hroom.buffered more

end BufferedFile

namespace FileTree

variable {tree tree' : FileTree} {place : Place}

theorem SameDirectories.creationPlace_ok (h : SameDirectories tree tree') {path : String}
    (hc : tree.creationPlace path = .ok place) : tree'.creationPlace path = .ok place := by
  have hsame := h.creationPlace path
  rw [hc] at hsame
  cases hc' : tree'.creationPlace path with
  | error cause =>
      rw [hc'] at hsame
      cases hsame
  | ok place' =>
      rw [hc'] at hsame
      cases hsame
      rfl

/-- What a path at which a file can be created is made of. -/
theorem of_creationPlace {path : String} (h : tree.creationPlace path = .ok place) :
    ∃ last home, pathError? path.toList = none ∧ (names path.toList).getLast? = some last ∧
      tree.descend (origin path.toList) (names path.toList).dropLast = .ok home ∧
      ¬ (last = hereName ∨ last = upName ∨ path.toList.getLast? = some '/') ∧
      place = home ++ [last] := by
  simp only [creationPlace] at h
  split at h
  · cases h
  · rename_i hpath
    split at h
    · cases h
    · rename_i last hlast
      split at h
      · cases h
      · rename_i home hhome
        split at h
        · cases h
        · rename_i hname
          split at h
          · cases h
          · split at h
            · cases h
            · cases h
              exact ⟨last, home, hpath, hlast, hhome, hname, rfl⟩

/-- A file that was created is found under its path. -/
theorem find?_of_creationPlace {path : String} (h : tree.creationPlace path = .ok place)
    {content : ByteArray} {executable : Bool}
    (hnode : tree.node? place = some (.file content executable)) :
    tree.find? path = some (place, .file content executable) := by
  obtain ⟨last, home, hpath, hlast, hhome, hname, rfl⟩ := of_creationPlace h
  rw [not_or, not_or] at hname
  simp only [find?, hpath, hlast, hhome, hnode, hname, if_false, Option.isSome_none,
    Bool.false_eq_true]

theorem names_append (path name : Text) : names (path ++ '/' :: name) = names path ++ names name := by
  rw [names, Text.splitOn_append_cons, List.filter_append]
  rfl

theorem origin_append {path : Text} (hne : path ≠ []) (more : Text) :
    origin (path ++ more) = origin path := by
  rw [origin, List.head?_append_of_ne_nil _ hne]
  rfl

/-- The names of a name that is not absolute come last in a path to it. -/
theorem names_join_of_relative (path : String) {name : String}
    (hhead : name.toList.head? ≠ some '/') :
    names (join path name).toList = names path.toList ++ names name.toList ∧
      origin (join path name).toList = origin path.toList := by
  rw [join, if_neg hhead]
  by_cases hempty : path.toList = []
  · rw [if_pos (.inl hempty), String.toList_append, hempty, List.nil_append, origin, if_neg hhead]
    exact ⟨rfl, rfl⟩
  · by_cases hlast : path.toList.getLast? = some '/'
    · obtain ⟨front, hfront⟩ := List.getLast?_eq_some_iff.1 hlast
      rw [if_pos (.inr hlast), String.toList_append]
      refine ⟨?_, origin_append hempty _⟩
      rw [hfront, List.append_assoc, List.singleton_append, names_append, names_append]
      simp [names, Text.splitOn]
    · rw [if_neg (not_or.2 ⟨hempty, hlast⟩), String.toList_append, String.toList_append,
        List.append_assoc]
      exact ⟨names_append path.toList name.toList, origin_append hempty _⟩

end FileTree

namespace Line

namespace FileReader

theorem toList_extract (content : ByteArray) (offset : Nat) :
    (content.extract offset content.size).data.toList = content.data.toList.drop offset := by
  rw [ByteArray.data_extract, Array.toList_extract, List.extract_eq_take_drop]
  exact List.take_of_length_le (by simp)

theorem le_fetched {missing available : Nat} (h : missing ≤ available) :
    missing ≤ fetched missing available := by
  have hpos : 0 < bufferSize := by decide
  have hbuffers := Nat.lt_div_mul_add (a := missing + bufferSize - 1) hpos
  rw [fetched]
  omega

/-- The bytes that a reader has not given out, if its file holds `content` until it is read. -/
def rest (reader : FileReader) (content : ByteArray) : List UInt8 :=
  if reader.ended then [] else reader.buffer ++ content.data.toList.drop reader.offset

variable {tree : FileTree} {reader : FileReader} {content : ByteArray}

/-- What a reader without a whole line in its buffer does: it reads on in its file. -/
theorem next_of_not_mem {place : Place} {offset : Nat} {buffer : List UInt8}
    (hcontent : tree.content place = content) (hfeed : lineFeed ∉ buffer) :
    next tree ⟨place, offset, buffer, false⟩ =
      let unread := content.data.toList.drop offset
      let cut := cutPiece unread
      if (buffer ++ cut.1).isEmpty then (none, ⟨place, offset, buffer, true⟩)
      else
        let taken := fetched cut.1.length unread.length
        (some (buffer ++ cut.1),
          ⟨place, offset + taken, cut.2.take (taken - cut.1.length), false⟩) := by
  rw [← toList_extract, ← hcontent]
  simp only [next, hfeed, if_false, Bool.false_eq_true]

theorem next_end (hcontent : tree.content reader.place = content)
    (h : reader.rest content = []) : ∃ reader', reader.next tree = (none, reader') := by
  obtain ⟨place, offset, buffer, ended⟩ := reader
  cases ended with
  | true => exact ⟨_, rfl⟩
  | false =>
      obtain ⟨rfl, hdrop⟩ := List.append_eq_nil_iff.1 h
      refine ⟨⟨place, offset, [], true⟩, ?_⟩
      rw [next_of_not_mem hcontent List.not_mem_nil]
      simp only [hdrop, cutPiece_of_not_mem List.not_mem_nil]
      rfl

/-- What was fetched beyond a piece, and what was not fetched, is what is left behind the piece. -/
theorem take_append_drop_of_cut {found more unread : List UInt8} (hcut : found ++ more = unread)
    {taken : Nat} (h : found.length ≤ taken) :
    more.take (taken - found.length) ++ unread.drop taken = more := by
  rw [← hcut, List.drop_append, List.drop_eq_nil_of_le h, List.nil_append, List.take_append_drop]

/-- A reader gives out the first of the pieces that are left. -/
theorem next_piece (hcontent : tree.content reader.place = content)
    (h : reader.rest content ≠ []) :
    ∃ reader', reader.next tree = (some (cutPiece (reader.rest content)).1, reader') ∧
      reader'.place = reader.place ∧
      reader'.rest content = (cutPiece (reader.rest content)).2 := by
  obtain ⟨place, offset, buffer, ended⟩ := reader
  cases ended with
  | true => exact absurd rfl h
  | false =>
      have hrest : rest ⟨place, offset, buffer, false⟩ content =
          buffer ++ content.data.toList.drop offset := rfl
      rw [hrest] at h ⊢
      by_cases hfeed : lineFeed ∈ buffer
      · rw [cutPiece_append_of_mem hfeed]
        refine ⟨⟨place, offset, (cutPiece buffer).2, false⟩, ?_, rfl, rfl⟩
        simp only [next, hfeed, if_true, if_false, Bool.false_eq_true]
      · rw [cutPiece_append_of_not_mem hfeed, next_of_not_mem hcontent hfeed]
        generalize hunread : content.data.toList.drop offset = unread at *
        have hcut := cutPiece_append unread
        have hne : buffer ++ (cutPiece unread).1 ≠ [] := by
          intro hnil
          obtain ⟨rfl, hfound⟩ := List.append_eq_nil_iff.1 hnil
          rw [List.nil_append] at h
          have hpiece : (cutPiece unread).1 ∈ pieces unread := by
            rw [pieces_cut h]
            exact List.mem_cons_self
          exact ne_nil_of_mem_pieces hpiece hfound
        have hmissing : (cutPiece unread).1.length ≤
            fetched (cutPiece unread).1.length unread.length := by
          have hlength := congrArg List.length hcut
          rw [List.length_append] at hlength
          exact le_fetched (by omega)
        dsimp only
        rw [if_neg (by simpa using hne)]
        refine ⟨_, rfl, rfl, ?_⟩
        rw [rest, if_neg Bool.false_ne_true, ← List.drop_drop, hunread]
        exact take_append_drop_of_cut hcut hmissing

end FileReader
end Line
end WikiDocs
