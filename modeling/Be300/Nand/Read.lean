/-
  Be300.Nand.Read — the three ways to read a page of the NAND flash.

  The direct interface and the MODE-5 stream read the data-only image with 512 bytes to a
  page, the 16-bit data port with 528. The stream starts at the column byte, the legacy
  interface at the column, 256 more after READ1. So the three agree whatever is stored on
  page 0 after READ0 only (`read_paths_iff`).
-/

import Be300.Nand.Program

namespace Be300.Nand

/-- READ0 or READ1. -/
def readCommand (half : Bool) : UInt8 := if half then cmdRead1 else cmdRead0

/-- The column that the command and the column byte stand for. -/
def readColumn (half : Bool) (b : UInt8) : Nat := (if half then 256 else 0) + b.toNat

def Iface.select (r : Iface) (half : Bool) (b : UInt8) (page : Nat) : List Access :=
  r.command (readCommand half) ++ (r.address b ++ r.rowCycles page)

def Engine.select (half : Bool) (b : UInt8) (page : Nat) : List Access :=
  command (readCommand half) ++ address [b, UInt8.ofNat page, UInt8.ofNat (page / 256)] ++ [.write regXferMode 1 0x05]

/-- The bytes that reads of these sizes at a port return. -/
def readAll (s : Chip) (offset pc : Nat) : List Nat → List UInt8
  | [] => []
  | size :: sizes =>
    let (value, s) := read s offset size pc
    (List.range size).map (byteOf value) ++ readAll s offset pc sizes

section Direct

variable {image : Nat → UInt8} {page column cycle k : Nat} {s : Chip}

/-- A read has been set up as far as so many address cycles. -/
structure Selecting (image : Nat → UInt8) (page column cycle : Nat) (s : Chip) : Prop where
  image : s.image = some image
  imageSize : s.imageSize = nandImageSize
  state : s.state = .readData
  page : s.pageAddr = page
  column : s.column = column
  cycle : s.addrCycle = cycle

/-- A read is at byte `k` of the rest of its page. -/
structure Selected (image : Nat → UInt8) (page column k : Nat) (s : Chip) : Prop where
  image : s.image = some image
  imageSize : s.imageSize = nandImageSize
  state : s.state = .readData
  offset : s.nandOffset = u32 (u32 (page * 528) + column)
  length : s.xferLength = 512 - column
  cursor : s.xferCursor = k
  page : s.pageAddr = page
  column : s.column = column

theorem command_selecting (r : Iface) (half : Bool) (himage : s.image = some image) (hsize : s.imageSize = nandImageSize) :
    Selecting image s.pageAddr (if half then 256 else 0) 0 (run s (r.command (readCommand half))) := by
  have hstart : ∀ t : Chip, t.image = some image → t.imageSize = nandImageSize → t.pageAddr = s.pageAddr →
      Selecting image s.pageAddr (if half then 256 else 0) 0 (legacyCommand t (readCommand half)) := by
    intro t h1 h2 h3
    unfold legacyCommand startCommand
    cases half with
    | false =>
      show Selecting image s.pageAddr 0 0 _
      rw [if_pos (by decide)]
      exact ⟨h1, h2, rfl, h3, rfl, rfl⟩
    | true =>
      show Selecting image s.pageAddr 256 0 _
      rw [if_neg (by decide), if_pos (by decide)]
      exact ⟨h1, h2, rfl, h3, rfl, rfl⟩
  cases r with
  | registers =>
    have hrun : run s (Iface.registers.command (readCommand half)) = legacyCommand s (readCommand half) := step_command _
    rw [hrun]
    exact hstart s himage hsize rfl
  | direct =>
    rw [run_direct_command]
    exact hstart _ himage hsize rfl

theorem latchCycle_selecting (h : Selecting image page column cycle s) (b : UInt8) :
    Selecting image (latchPage cycle page b) (if cycle = 0 then column / 256 * 256 + b.toNat else column) cycle
      (latchCycle s b) := by
  have hpage : (latchCycle s b).pageAddr = latchPage cycle page b := by rw [latchCycle_page, h.cycle, h.page]
  have hcolumn : (latchCycle s b).column = if cycle = 0 then column / 256 * 256 + b.toNat else column := by
    have hcycle := h.cycle
    unfold latchCycle
    rcases hc : s.addrCycle with _ | _ | _ | _ | n <;> rw [hc] at hcycle <;> subst hcycle
    · rw [if_pos rfl]
      simp only [h.state, if_true, h.column]
    all_goals exact h.column
  refine ⟨?_, ?_, ?_, hpage, hcolumn, ?_⟩
  all_goals
    unfold latchCycle
    split
  all_goals first
    | exact h.image
    | exact h.imageSize
    | exact h.state
    | exact h.cycle
    | split <;> first
      | exact h.image
      | exact h.imageSize
      | exact h.state
      | exact h.cycle

/-- The legacy interface's address cycle, through either port. -/
theorem run_address (r : Iface) (s : Chip) (b : UInt8) :
    ∃ t, (∃ mode last, t = { s with dioMode := mode, dioLastWrite := last }) ∧
    ∃ last, run s (r.address b) = { (legacyAddress t b).2 with dioLastWrite := last } ∧
      (r = .direct → (legacyAddress t b).1 = true → last = 0) := by
  cases r with
  | registers =>
    exact ⟨s, ⟨s.dioMode, s.dioLastWrite, rfl⟩, (legacyAddress s b).2.dioLastWrite, step_address b, by rintro ⟨⟩⟩
  | direct =>
    refine ⟨{ s with dioMode := 0x01, dioLastWrite := b }, ⟨0x01, b, rfl⟩, ?_⟩
    have hrun := step_dio (s := s) 0x01 1 b.toNat
    unfold writeDioData routeDio at hrun
    rw [byteOf_toNat] at hrun
    simp only at hrun
    rw [if_neg (by decide), if_pos (by decide)] at hrun
    by_cases hdone : (legacyAddress { s with dioMode := 0x01, dioLastWrite := b } b).1 = true
    · rw [if_pos hdone] at hrun
      exact ⟨0, hrun, fun _ _ => rfl⟩
    · rw [if_neg hdone] at hrun
      exact ⟨_, hrun, fun _ h => absurd h hdone⟩

theorem address_selecting (r : Iface) (h : Selecting image page column cycle s) (hcycle : cycle < 2) (b : UInt8) :
    Selecting image (latchPage cycle page b) (if cycle = 0 then column / 256 * 256 + b.toNat else column) (cycle + 1)
      (run s (r.address b)) := by
  obtain ⟨t, ⟨mode, last, rfl⟩, last', hrun, -⟩ := run_address r s b
  rw [hrun]
  have hlatch := latchCycle_selecting (s := { s with dioMode := mode, dioLastWrite := last })
    ⟨h.image, h.imageSize, h.state, h.page, h.column, h.cycle⟩ b
  generalize (if cycle = 0 then column / 256 * 256 + b.toNat else column) = column' at hlatch ⊢
  unfold legacyAddress
  generalize latchCycle { s with dioMode := mode, dioLastWrite := last } b = u at hlatch ⊢
  have hu : u.addrCycle = cycle := hlatch.cycle
  have hstate : u.state ≠ .programData := by rw [hlatch.state]; decide
  simp only
  rw [if_neg fun h => absurd h.1 (by omega), if_neg fun h => hstate h.2]
  exact ⟨hlatch.image, hlatch.imageSize, hlatch.state, hlatch.page, hlatch.column, by simp only; omega⟩

theorem setupTransfer_selected (h : Selecting image page column cycle s) (hcolumn : column < 512) :
    Selected image page column 0 (setupTransfer s) := by
  obtain ⟨himage, hsize, hstate, rfl, rfl, -⟩ := h
  unfold setupTransfer
  rw [hstate]
  simp only
  rw [if_pos (show s.column < pageData from hcolumn)]
  exact ⟨himage, hsize, rfl, rfl, rfl, rfl, rfl, rfl⟩

/-- The third address cycle sets the transfer up. -/
theorem address_selected (r : Iface) (h : Selecting image page column 2 s) (hcolumn : column < 512) (b : UInt8) :
    Selected image (latchPage 2 page b) column 0 (run s (r.address b)) ∧
      (r = .direct → (run s (r.address b)).dioLastWrite = 0) := by
  obtain ⟨t, ⟨mode, last, rfl⟩, last', hrun, hlast⟩ := run_address r s b
  rw [hrun]
  have hlatch := latchCycle_selecting (s := { s with dioMode := mode, dioLastWrite := last })
    ⟨h.image, h.imageSize, h.state, h.page, h.column, h.cycle⟩ b
  rw [if_neg (by decide)] at hlatch
  unfold legacyAddress at hlast ⊢
  generalize latchCycle { s with dioMode := mode, dioLastWrite := last } b = u at hlatch hlast ⊢
  have hcycle : u.addrCycle = 2 := hlatch.cycle
  have hset := setupTransfer_selected (s := { u with addrCycle := (u.addrCycle + 1) % 256 })
    ⟨hlatch.image, hlatch.imageSize, hlatch.state, hlatch.page, hlatch.column, rfl⟩ hcolumn
  simp only at hlast ⊢
  rw [if_pos ⟨by omega, Or.inl hlatch.state⟩] at hlast ⊢
  exact ⟨⟨hset.image, hset.imageSize, hset.state, hset.offset, hset.length, hset.cursor, hset.page, hset.column⟩,
    fun hr => hlast hr rfl⟩

/-- A command and its three address bytes. -/
theorem run_select (r : Iface) (half : Bool) (b : UInt8) (row : Nat) (himage : s.image = some image)
    (hsize : s.imageSize = nandImageSize) (hrow : row < 65536) :
    Selected image (s.pageAddr / 65536 * 65536 + row) (readColumn half b) 0 (run s (r.select half b row)) ∧
      (r = .direct → (run s (r.select half b row)).dioLastWrite = 0) := by
  have hb : b.toNat < 256 := b.toNat_lt
  have hcommand := command_selecting r half himage hsize
  have hcolumn := address_selecting r hcommand (by decide) b
  have hlow := address_selecting r hcolumn (by decide) (UInt8.ofNat row)
  have hhigh := address_selected r hlow (by cases half <;> simp <;> omega) (UInt8.ofNat (row / 256))
  have hpage : latchPage 2 (latchPage 1 (latchPage 0 s.pageAddr b) (UInt8.ofNat row)) (UInt8.ofNat (row / 256)) =
      s.pageAddr / 65536 * 65536 + row := by
    simp only [latchPage, UInt8.toNat_ofNat']
    omega
  have hcol : (if (0 + 1 : Nat) = 0 then (if (0 : Nat) = 0 then (if half then 256 else 0) / 256 * 256 + b.toNat else
      if half then 256 else 0) / 256 * 256 + (UInt8.ofNat row).toNat else if (0 : Nat) = 0 then
      (if half then 256 else 0) / 256 * 256 + b.toNat else if half then 256 else 0) = readColumn half b := by
    cases half <;> rfl
  rw [hpage, hcol] at hhigh
  rw [Iface.select, run_append, run_append, Iface.rowCycles, run_append]
  exact hhigh

end Direct

/-! ## The reads -/

section Ports

variable {image : Nat → UInt8} {page column k pc : Nat} {s : Chip}

theorem byteOf_valueOf (l : List UInt8) (i : Nat) : byteOf (valueOf l) i = l.getD i 0 := by
  induction l generalizing i with
  | nil => simp [byteOf, valueOf]
  | cons b l ih =>
    have hb : b.toNat < 256 := b.toNat_lt
    cases i with
    | zero =>
      show UInt8.ofNat ((b.toNat + 256 * valueOf l) / 256 ^ 0) = b
      rw [Nat.pow_zero, Nat.div_one, ← UInt8.toNat_inj, UInt8.toNat_ofNat']
      omega
    | succ i =>
      show UInt8.ofNat ((b.toNat + 256 * valueOf l) / 256 ^ (i + 1)) = l.getD i 0
      rw [← ih i, Nat.pow_succ', ← Nat.div_div_eq_div_mul, show (b.toNat + 256 * valueOf l) / 256 = valueOf l by omega]
      rfl

theorem bytes_valueOf (l : List UInt8) : (List.range l.length).map (byteOf (valueOf l)) = l := by
  refine List.ext_getElem (by simp) fun i h _ => ?_
  rw [List.length_map, List.length_range] at h
  rw [List.getElem_map, List.getElem_range, byteOf_valueOf, List.getD_eq_getElem _ _ h]

/-- Reads that return the bytes of `f` one after the other. -/
theorem readAll_range (offset limit : Nat) {f : Nat → UInt8} {P : Nat → Chip → Prop} {sizes : List Nat}
    (hread : ∀ size ∈ sizes, ∀ k s, P k s → k + size ≤ limit →
      (List.range size).map (byteOf (read s offset size pc).1) = (List.range size).map (fun i => f (k + i)) ∧
        P (k + size) (read s offset size pc).2)
    (h : P k s) (hlimit : k + sizes.sum ≤ limit) :
    readAll s offset pc sizes = (List.range sizes.sum).map fun i => f (k + i) := by
  induction sizes generalizing k s with
  | nil => rfl
  | cons size sizes ih =>
    rw [List.sum_cons] at hlimit
    obtain ⟨hfirst, hnext⟩ := hread size List.mem_cons_self k s h (by omega)
    have hrest := ih (fun size hmem => hread size (List.mem_cons_of_mem _ hmem)) hnext (by omega)
    show (List.range size).map (byteOf (read s offset size pc).1) ++ readAll (read s offset size pc).2 offset pc sizes = _
    rw [hfirst, hrest, List.sum_cons, List.range_add, List.map_append, List.map_map]
    simp only [Function.comp_def, Nat.add_assoc]

theorem read_dio (s : Chip) : read s regDioData 1 pc = readDioData s := by
  unfold read
  rw [if_neg (by decide), if_neg (by decide), if_neg (by decide), if_neg (by decide), if_neg (by decide), if_pos rfl]

theorem read_port (s : Chip) : read s regData 2 pc = readData s 2 := by
  unfold read
  rw [if_neg (by decide), if_neg (by decide), if_neg (by decide), if_neg (by decide), if_neg (by decide), if_neg (by decide),
    if_neg (by decide), if_neg (by decide), if_neg (by decide), if_neg (by decide), if_pos rfl]

theorem read_stream (s : Chip) (size : Nat) (h : s.streamActive = true) : read s regStreamData size pc = streamRead s size := by
  unfold read
  rw [if_neg (by decide), if_neg (by decide), if_neg (by decide), if_neg (by decide), if_pos (by decide), if_pos h]

/-- The byte port reads the image with 512 bytes to a page. -/
theorem dio_selected (h : Selected image page column k s) (hlast : s.dioLastWrite = 0) (hk : k + 1 ≤ 512 - column)
    (hin : u32 (page * 512 + column + k) < nandImageSize) :
    (List.range 1).map (byteOf (read s regDioData 1 pc).1) = (List.range 1).map
      (fun i => image (u32 (page * 512 + column + (k + i)))) ∧
      Selected image page column (k + 1) (read s regDioData 1 pc).2 ∧ (read s regDioData 1 pc).2.dioLastWrite = 0 := by
  obtain ⟨himage, hsize, hstate, hoff, hlen, hcursor, hpage, hcol⟩ := h
  have hbyte : transferByte s = image (u32 (page * 512 + column + k)) := by
    unfold transferByte imageByte
    rw [hstate]
    simp only
    rw [himage, hpage, hcol, hcursor, hsize]
    exact if_neg (by unfold pageData; omega)
  have hread : read s regDioData 1 pc = ((image (u32 (page * 512 + column + k))).toNat, { s with xferCursor := k + 1 }) := by
    rw [read_dio]
    unfold readDioData
    rw [if_neg (not_not.mpr hlast), if_neg (by rw [hstate]; decide),
      if_pos ⟨by rw [hstate]; rfl, by omega, by rw [himage]; rfl, by omega⟩, hbyte, hcursor]
  rw [hread]
  refine ⟨?_, ⟨himage, hsize, hstate, hoff, hlen, rfl, hpage, hcol⟩, hlast⟩
  show [byteOf (image _).toNat 0] = [image (u32 (page * 512 + column + (k + 0)))]
  rw [byteOf_toNat, Nat.add_zero]

/-- The data port reads two bytes from the offset of the transfer. -/
theorem port_selected {off : Nat} (h : Selected image page column k s) (hoff : u32 (u32 (page * 528) + column) = off)
    (hk : k < 512 - column) (hin : off + k + 1 < nandImageSize) :
    (List.range 2).map (byteOf (read s regData 2 pc).1) = (List.range 2).map (fun i => image (off + (k + i))) ∧
      Selected image page column (k + 2) (read s regData 2 pc).2 := by
  obtain ⟨himage, hsize, hstate, hoffset, hlen, hcursor, hpage, hcol⟩ := h
  have hword : u32 (s.nandOffset + s.xferCursor) = off + k ∧ u32 (off + k + 1) = off + k + 1 := by
    rw [hoffset, hcursor, hoff]
    unfold nandImageSize at hin
    unfold u32
    omega
  have hport : portRead s = ((image (off + k)).toNat + 256 * (image (off + k + 1)).toNat, { s with
      xferCursor := k + 2, outside := s.outside || decide (off + k ≥ s.imageSize) }) := by
    unfold portRead
    rw [himage]
    simp only
    rw [if_neg (by omega), hword.1, hword.2, if_pos (by rw [hsize]; exact hin), hcursor]
  have hread : read s regData 2 pc = portRead s := by
    rw [read_port]
    unfold readData
    rw [if_neg (by rw [hstate]; decide), if_pos ⟨by decide, by rw [hstate]; rfl, by omega⟩]
  rw [hread, hport]
  refine ⟨?_, himage, hsize, hstate, hoffset, hlen, rfl, hpage, hcol⟩
  have hvalue : valueOf [image (off + k), image (off + k + 1)] = (image (off + k)).toNat + 256 * (image (off + k + 1)).toNat := by
    simp only [valueOf]
    omega
  rw [← hvalue]
  exact bytes_valueOf [image (off + k), image (off + k + 1)]

/-- The first byte that the data port reads. -/
theorem port_first (pc : Nat) (h : Selected image page column 0 s) (hcolumn : column < 512) :
    byteOf (read s regData 2 pc).1 0 = image (u32 (u32 (page * 528) + column)) ∨ byteOf (read s regData 2 pc).1 0 = 0xFF := by
  obtain ⟨himage, hsize, hstate, hoffset, hlen, hcursor, hpage, hcol⟩ := h
  have hoff : u32 (s.nandOffset + s.xferCursor) = u32 (u32 (page * 528) + column) := by
    rw [hoffset, hcursor, Nat.add_zero]
    exact Nat.mod_mod _ _
  have hread : read s regData 2 pc = portRead s := by
    rw [read_port]
    unfold readData
    rw [if_neg (by rw [hstate]; decide), if_pos ⟨by decide, by rw [hstate]; rfl, by omega⟩]
  rw [hread]
  unfold portRead
  rw [himage]
  simp only
  rw [if_neg (by omega), hoff]
  have hbyte : ∀ v w : UInt8, byteOf (v.toNat + 256 * w.toNat) 0 = v := by
    intro v w
    have hv := byteOf_valueOf [v, w] 0
    simpa [valueOf] using hv
  split
  · exact Or.inl (hbyte _ _)
  split
  · exact Or.inl (byteOf_toNat _)
  · exact Or.inr (show byteOf 0xFFFF 0 = 0xFF by decide)

/-- The stream is at byte `k` of the bytes from a column of a page on. -/
structure Open (image : Nat → UInt8) (page column k : Nat) (s : Chip) : Prop where
  image : s.image = some image
  imageSize : s.imageSize = nandImageSize
  active : s.streamActive = true
  limit : 520 - column ≤ s.streamLimit
  page : s.streamPage = page
  column : s.streamCol = column
  cursor : s.streamCursor = k

theorem stream_open {size : Nat} (h : Open image page column k s) (hpage : page < pageCount) (hk : k + size ≤ 512 - column) :
    (List.range size).map (byteOf (read s regStreamData size pc).1) = (List.range size).map
      (fun i => image (page * 512 + column + (k + i))) ∧
      Open image page column (k + size) (read s regStreamData size pc).2 := by
  obtain ⟨himage, hsize, hactive, hlimit, hp, hcol, hcursor⟩ := h
  unfold pageCount at hpage
  have hbyte : ∀ i < size, limitedByte s (u32 (s.streamCursor + i)) = image (page * 512 + column + (k + i)) := by
    intro i hi
    have habsolute : u32 (s.streamCol + u32 (s.streamCursor + i)) = column + (k + i) := by
      unfold u32
      omega
    unfold limitedByte streamByte imageByte
    rw [if_neg (by unfold u32; omega), habsolute, hp, himage, hsize]
    have hin : u32 (u32 (page + (column + (k + i)) / pageRaw) * pageData + (column + (k + i)) % pageRaw) =
        page * 512 + column + (k + i) := by
      unfold u32 pageRaw pageData
      omega
    simp only [hin]
    rw [if_pos (by unfold pageRaw pageData; omega), if_neg (by unfold nandImageSize; omega)]
  have hbytes : (List.range size).map (fun i => limitedByte s (u32 (s.streamCursor + i))) =
      (List.range size).map fun i => image (page * 512 + column + (k + i)) :=
    List.map_congr_left fun i hi => hbyte i (List.mem_range.mp hi)
  rw [read_stream s size hactive]
  unfold streamRead
  rw [hbytes]
  refine ⟨?_, himage, hsize, hactive, hlimit, hp, hcol, ?_⟩
  · have hvalue := bytes_valueOf ((List.range size).map fun i => image (page * 512 + column + (k + i)))
    rw [List.length_map, List.length_range] at hvalue
    exact hvalue
  · show u32 (s.streamCursor + size) = k + size
    unfold u32
    omega

theorem readAll_dio {n : Nat} (h : Selected image page column k s) (hlast : s.dioLastWrite = 0) (hk : k + n ≤ 512 - column)
    (hin : ∀ i < 512 - column, u32 (page * 512 + column + i) < nandImageSize) :
    readAll s regDioData pc (List.replicate n 1) = (List.range n).map fun i => image (u32 (page * 512 + column + (k + i))) := by
  have hall : readAll s regDioData pc (List.replicate n 1) = _ :=
    readAll_range regDioData (512 - column) (f := fun i => image (u32 (page * 512 + column + i)))
    (P := fun k s => Selected image page column k s ∧ s.dioLastWrite = 0)
    (fun size hsize k s h hk => by
      rw [List.eq_of_mem_replicate hsize] at hk ⊢
      exact dio_selected h.1 h.2 hk (hin k (by omega))) ⟨h, hlast⟩ (by rw [List.sum_replicate_nat]; omega)
  rw [hall, List.sum_replicate_nat, Nat.mul_one]

theorem readAll_port {off n : Nat} (h : Selected image page column k s) (hoff : u32 (u32 (page * 528) + column) = off)
    (hk : k + n * 2 ≤ 512 - column + 1) (hin : off + 512 - column < nandImageSize) :
    readAll s regData pc (List.replicate n 2) = (List.range (n * 2)).map fun i => image (off + (k + i)) := by
  have hall : readAll s regData pc (List.replicate n 2) = _ :=
    readAll_range regData (512 - column + 1) (f := fun i => image (off + i))
    (P := fun k s => Selected image page column k s)
    (fun size hsize k s h hk => by
      rw [List.eq_of_mem_replicate hsize] at hk ⊢
      exact port_selected h hoff (by omega) (by omega)) h (by rw [List.sum_replicate_nat]; omega)
  rw [hall, List.sum_replicate_nat]

theorem readAll_stream {sizes : List Nat} (h : Open image page column k s) (hpage : page < pageCount)
    (hk : k + sizes.sum ≤ 512 - column) :
    readAll s regStreamData pc sizes = (List.range sizes.sum).map fun i => image (page * 512 + column + (k + i)) :=
  readAll_range regStreamData (512 - column) (f := fun i => image (page * 512 + column + i))
    (P := fun k s => Open image page column k s)
    (fun _ _ _ _ h hk => stream_open h hpage hk) h hk

/-- The engine's command, address phase and mode 5. -/
theorem run_engine_select (s : Chip) (half : Bool) (b : UInt8) (row : Nat) (himage : s.image = some image)
    (hsize : s.imageSize = nandImageSize) (hrow : row < 65536) :
    Open image row b.toNat 0 (run s (Engine.select half b row)) := by
  obtain ⟨regs, hcommand⟩ := run_engine_command s (readCommand half)
  obtain ⟨t, ht, hrun⟩ := run_engine_address (run s (Engine.command (readCommand half)))
    [b, UInt8.ofNat row, UInt8.ofNat (row / 256)] (by simp)
  have hkept : (run s (Engine.command (readCommand half))).image = some image ∧
      (run s (Engine.command (readCommand half))).imageSize = nandImageSize ∧
      (run s (Engine.command (readCommand half))).xferLastCmd = readCommand half := by
    rw [hcommand]
    unfold xferCommand
    cases half with
    | false =>
      rw [if_pos (show readCommand false = cmdRead0 from rfl)]
      exact ⟨himage, hsize, rfl⟩
    | true =>
      rw [if_neg (by decide), if_pos (show readCommand true = cmdRead1 from rfl)]
      exact ⟨himage, hsize, rfl⟩
  have h0 : t.xferAddrBytes 0 = b := ht.bytes 0 (by simp)
  have h1 : t.xferAddrBytes 1 = UInt8.ofNat row := ht.bytes 1 (by simp)
  have h2 : t.xferAddrBytes 2 = UInt8.ofNat (row / 256) := ht.bytes 2 (by simp)
  have hrowAddr : xferRowAddr t = row := by
    unfold xferRowAddr
    rw [h1, h2, UInt8.toNat_ofNat', UInt8.toNat_ofNat']
    omega
  have hcolAddr : xferColAddr t = b.toNat := congrArg UInt8.toNat h0
  have haddressed : xferAddressed t = { t with pageAddr := row, column := b.toNat, ready := true } := by
    unfold xferAddressed
    rw [ht.lastCmd, hkept.2.2, if_neg (by cases half <;> decide), if_neg (by cases half <;> decide),
      if_pos (by cases half <;> decide), hrowAddr, hcolAddr]
  obtain ⟨u, hu, hmode⟩ := step_mode (xferAddressed t) 0x05
  have hopen : ∀ v : Chip, v.image = some image → v.imageSize = nandImageSize → xferRowAddr v = row → xferColAddr v = b.toNat →
      Open image row b.toNat 0 (writeXferMode v 0x05) := by
    intro v h1 h2 h3 h4
    unfold writeXferMode startXferMode
    rw [if_neg (by decide), if_neg (by decide), if_pos rfl]
    refine ⟨h1, h2, rfl, ?_, h3, h4, rfl⟩
    show 520 - b.toNat ≤ (if v.burst520 then pageData + 8 else pageRaw) - xferColAddr v
    rw [h4]
    unfold pageData pageRaw
    split <;> omega
  have hfinal : run s (Engine.select half b row) = writeXferMode u 0x05 := by
    rw [Engine.select, run_append, run_append, hrun]
    exact hmode
  rw [hfinal, hu, haddressed]
  exact hopen _ (ht.image.trans hkept.1) (ht.imageSize.trans hkept.2.1) hrowAddr hcolAddr

end Ports

/-! ## Where the paths agree -/

/-- The image's bytes from a column of a page on. -/
def dataArea (image : Nat → UInt8) (page column : Nat) : List UInt8 :=
  (List.range (pageData - column)).map fun i => image (page * pageData + column + i)

/-- The three paths read the rest of the page's data area, whatever is stored. -/
structure ReadsAgree (s : Chip) (r : Iface) (half : Bool) (b : UInt8) (page : Nat) : Prop where
  dio : ∀ image pc, readAll (run { s with image := some image, imageSize := nandImageSize } (Iface.direct.select half b page))
    regDioData pc (List.replicate (pageData - readColumn half b) 1) = dataArea image page (readColumn half b)
  port : ∀ image pc, (readAll (run { s with image := some image, imageSize := nandImageSize } (r.select half b page))
    regData pc (List.replicate ((pageData - readColumn half b + 1) / 2) 2)).take (pageData - readColumn half b) =
      dataArea image page (readColumn half b)
  stream : ∀ image pc sizes, sizes.sum = pageData - readColumn half b →
    readAll (run { s with image := some image, imageSize := nandImageSize } (Engine.select half b page)) regStreamData pc sizes =
      dataArea image page (readColumn half b)

section Agree

variable {s : Chip} {half : Bool} {b : UInt8} {page : Nat}

theorem readColumn_lt (half : Bool) (b : UInt8) : readColumn half b < 512 := by
  have hb : b.toNat < 256 := b.toNat_lt
  unfold readColumn
  split <;> omega

/-- Rows of 528 and of 512 bytes start at one offset only where the row is a multiple of 2^28. -/
theorem offsets_agree {high page column : Nat} (hpage : page < pageCount)
    (h : u32 (u32 ((high * 65536 + page) * 528) + column) = page * pageData + column) : high % 4096 = 0 ∧ page = 0 := by
  unfold pageCount at hpage
  unfold u32 pageData at h
  rw [Nat.mod_add_mod] at h
  have hwhole := Nat.div_add_mod ((high * 65536 + page) * 528 + column) (2 ^ 32)
  rw [h] at hwhole
  clear h
  generalize ((high * 65536 + page) * 528 + column) / 2 ^ 32 = k at hwhole
  have hsum : 4096 * (528 * high) + page = 4096 * (65536 * k) := by omega
  obtain ⟨m, rfl⟩ : ∃ m, page = 4096 * m := ⟨page / 4096, by omega⟩
  have hrest : 528 * high + m = 65536 * k := by omega
  have hm : m = 0 := by omega
  subst hm
  have hodd : 33 * high = 4096 * k := by omega
  omega

/-- What the data port needs. -/
theorem port_agrees_only {r : Iface} (hpage : page < pageCount) (h : ReadsAgree s r half b page) :
    s.pageAddr / 65536 % 4096 = 0 ∧ page = 0 := by
  have hcolumn := readColumn_lt half b
  have hrow : page < 65536 := Nat.lt_trans hpage (by decide)
  have hport := h.port (fun a => if a = page * pageData + readColumn half b then 0 else 0xFF) 0
  obtain ⟨hselected, -⟩ := run_select (s := { s with
    image := some fun a => if a = page * pageData + readColumn half b then 0 else 0xFF
    imageSize := nandImageSize }) r half b page rfl rfl hrow
  generalize run _ (r.select half b page) = t at hport hselected
  have hfirst := port_first 0 hselected hcolumn
  obtain ⟨n, hn⟩ : ∃ n, pageData - readColumn half b = n + 1 := ⟨511 - readColumn half b, by unfold pageData; omega⟩
  obtain ⟨m, hm⟩ : ∃ m, (pageData - readColumn half b + 1) / 2 = m + 1 := ⟨n / 2, by omega⟩
  have hzero : byteOf (read t regData 2 0).1 0 = 0 := by
    have hhead := congrArg (fun l => l.getD 0 0xFF) hport
    unfold dataArea at hhead
    rw [hm, hn, List.range_succ_eq_map, List.replicate_succ] at hhead
    simpa [readAll, List.range_succ_eq_map] using hhead
  rw [hzero] at hfirst
  rcases hfirst with hfirst | hfirst
  · by_cases hoff : u32 (u32 ((s.pageAddr / 65536 * 65536 + page) * 528) + readColumn half b) =
      page * pageData + readColumn half b
    · exact offsets_agree hpage hoff
    · simp only at hfirst
      rw [if_neg hoff] at hfirst
      exact absurd hfirst (by decide)
  · exact absurd hfirst (by decide)

/-- What the stream needs. -/
theorem stream_agrees_only {r : Iface} (hpage : page < pageCount) (h : ReadsAgree s r half b page) : half = false := by
  have hcolumn := readColumn_lt half b
  have hb : b.toNat ≤ readColumn half b := Nat.le_add_left _ _
  have hstream := h.stream (fun a => if a = page * pageData + readColumn half b then 0 else 0xFF) 0
    [pageData - readColumn half b] (List.sum_singleton)
  have hopen := run_engine_select (s := { s with
    image := some fun a => if a = page * pageData + readColumn half b then 0 else 0xFF, imageSize := nandImageSize }) half b page
    rfl rfl (by unfold pageCount at hpage; omega)
  generalize run _ (Engine.select half b page) = t at hstream hopen
  rw [readAll_stream hopen hpage (by rw [List.sum_singleton]; unfold pageData; omega), List.sum_singleton] at hstream
  obtain ⟨n, hn⟩ : ∃ n, pageData - readColumn half b = n + 1 := ⟨511 - readColumn half b, by unfold pageData; omega⟩
  unfold dataArea at hstream
  rw [hn, List.range_succ_eq_map, List.map_cons, List.map_cons] at hstream
  have hfirst : (if page * 512 + b.toNat + (0 + 0) = page * pageData + readColumn half b then (0 : UInt8) else 0xFF) =
      if page * pageData + readColumn half b + 0 = page * pageData + readColumn half b then 0 else 0xFF :=
        (List.cons.inj hstream).1
  rw [if_pos (Nat.add_zero _)] at hfirst
  cases half with
  | false => rfl
  | true =>
    rw [if_neg (by unfold readColumn pageData; simp only [if_true]; omega)] at hfirst
    exact absurd hfirst (by decide)

theorem reads_agree (r : Iface) (b : UInt8) (hpage : s.pageAddr / 65536 % 4096 = 0) : ReadsAgree s r false b 0 := by
  have hcolumn := readColumn_lt false b
  have hcol : readColumn false b = b.toNat := Nat.zero_add _
  generalize hhigh : s.pageAddr / 65536 * 65536 + 0 = high
  have hstride : u32 (high * 528) = 0 := by
    unfold u32
    omega
  constructor
  · intro image pc
    have hselected := run_select (s := { s with image := some image, imageSize := nandImageSize }) .direct false b 0 rfl rfl
      (by decide)
    generalize run _ (Iface.direct.select false b 0) = t at hselected ⊢
    simp only [hhigh] at hselected
    have hword : ∀ i < 512 - readColumn false b, u32 (high * 512 + readColumn false b + i) = readColumn false b + i := by
      intro i hi
      unfold u32
      omega
    rw [readAll_dio hselected.1 (hselected.2 trivial) (by unfold pageData; omega)
      (fun i hi => by rw [hword i hi]; unfold nandImageSize; omega)]
    unfold dataArea pageData
    refine List.map_congr_left fun i hi => ?_
    rw [Nat.zero_add, hword i (List.mem_range.mp hi), Nat.zero_mul, Nat.zero_add]
  · intro image pc
    have hselected := run_select (s := { s with image := some image, imageSize := nandImageSize }) r false b 0 rfl rfl (by decide)
    generalize run _ (r.select false b 0) = t at hselected ⊢
    simp only [hhigh] at hselected
    have hport : u32 (u32 (high * 528) + readColumn false b) = readColumn false b := by
      rw [hstride]
      unfold u32
      omega
    rw [readAll_port hselected.1 hport (by unfold pageData; omega)
      (by unfold nandImageSize; omega), ← List.map_take, List.take_range]
    unfold dataArea pageData
    rw [Nat.min_eq_left (by omega)]
    simp only [Nat.zero_mul, Nat.zero_add]
  · intro image pc sizes hsum
    have hopen := run_engine_select (s := { s with image := some image, imageSize := nandImageSize }) false b 0 rfl rfl
      (by decide)
    generalize run _ (Engine.select false b 0) = t at hopen ⊢
    rw [readAll_stream hopen (by decide) (by rw [hsum]; unfold pageData; omega), hsum, hcol]
    unfold dataArea pageData
    simp only [Nat.zero_add]

end Agree

/-- The three paths read the same bytes exactly for READ0 of page 0, when the third byte of
    the row before is zero. -/
theorem read_paths_iff (s : Chip) (r : Iface) (half : Bool) (b : UInt8) (page : Nat) (hpage : page < pageCount) :
    ReadsAgree s r half b page ↔ s.pageAddr / 65536 % 4096 = 0 ∧ page = 0 ∧ half = false := by
  constructor
  · intro h
    obtain ⟨hhigh, hzero⟩ := port_agrees_only hpage h
    exact ⟨hhigh, hzero, stream_agrees_only hpage h⟩
  · rintro ⟨hhigh, rfl, rfl⟩
    exact reads_agree r b hhigh

theorem read_paths_page_zero : ReadsAgree (nandInit none 0 0 none) .registers false 3 0 :=
  (read_paths_iff _ .registers false 3 0 (by decide)).mpr ⟨by decide, rfl, rfl⟩

/-- READ0 of page 1: the data port starts 16 bytes late. -/
theorem port_reads_late : ¬ (∀ (s : Chip) (r : Iface) (half : Bool) (b : UInt8) (page : Nat), page < pageCount →
      ReadsAgree s r half b page) ∧
    readAll (run (nandInit (some fun a => UInt8.ofNat a) nandImageSize nandImageSize none) (Iface.direct.select false 0 1))
      regDioData 0 [1, 1] = [0, 1] ∧
    readAll (run (nandInit (some fun a => UInt8.ofNat a) nandImageSize nandImageSize none) (Iface.registers.select false 0 1))
      regData 0 [2] = [16, 17] ∧
    readAll (run (nandInit (some fun a => UInt8.ofNat a) nandImageSize nandImageSize none) (Engine.select false 0 1))
      regStreamData 0 [2] = [0, 1] := by
  generalize hs : nandInit (some fun a => UInt8.ofNat a) nandImageSize nandImageSize none = s
  have himage : s.image = some fun a => UInt8.ofNat a := by rw [← hs]; rfl
  have hsize : s.imageSize = nandImageSize := by rw [← hs]; rfl
  have hpage : s.pageAddr = 0 := by rw [← hs]; rfl
  have hdirect := run_select .direct false 0 1 himage hsize (by decide)
  have hregisters := run_select .registers false 0 1 himage hsize (by decide)
  have hopen := run_engine_select s false 0 1 himage hsize (by decide)
  rw [hpage] at hdirect hregisters
  refine ⟨fun h => ?_, ?_, ?_, ?_⟩
  · have hzero := (port_agrees_only (by decide) (h (nandInit none 0 0 none) .registers false 0 1 (by decide))).2
    exact absurd hzero (by decide)
  · rw [show [1, 1] = List.replicate 2 1 from rfl, readAll_dio hdirect.1 (hdirect.2 rfl) (by decide)]
    · decide
    · intro i hi
      change i < 512 - (0 + 0) at hi
      show u32 (1 * 512 + 0 + i) < nandImageSize
      unfold u32 nandImageSize
      omega
  · rw [show [2] = List.replicate 1 2 from rfl, readAll_port hregisters.1 (show _ = 528 by decide) (by decide) (by decide)]
    decide
  · rw [readAll_stream hopen (by decide) (by decide)]
    decide

end Be300.Nand
