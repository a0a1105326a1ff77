import BurpTUI.Http.ParserDelivery

namespace BurpTUI

/-- The pieces are read as far as the data goes, each span in as few parts as possible. -/
def readPieces : List Piece → Bytes → List Piece × List Callback
  | [], _ => ([], [])
  | .complete p :: ps, data =>
    let (ps', cbs) := readPieces ps data
    (ps', .messageComplete p :: cbs)
  | .silent bytes :: ps, data =>
    if bytes.length ≤ data.length then readPieces ps (data.drop bytes.length)
    else (.silent (bytes.drop data.length) :: ps, [])
  | .span kind begun text :: ps, data =>
    if text.length ≤ data.length then
      let (ps', cbs) := readPieces ps (data.drop text.length)
      (ps', .span kind text :: cbs)
    else if data = [] then (.span kind begun text :: ps, [])
    else (.span kind true (text.drop data.length) :: ps, [.span kind data])

/-- An llhttp that knows beforehand which pieces it is going to read. -/
def scripted (script : ParserType → List Piece) : Llhttp where
  State := List Piece
  init := script
  execute ps data := ((readPieces ps data).1, (readPieces ps data).2, .ok)

/-- A new message starts here, or nothing is left. -/
def Fresh (ps : List Piece) : Prop := ps = [] ∨ ∃ c bytes rest, ps = .silent (c :: bytes) :: rest

/-- The script goes on with these pieces. -/
def Ahead (st ps : List Piece) : Prop := ∃ rest, Fresh rest ∧ st = ps ++ rest

theorem Fresh.readPieces_nil {rest : List Piece} (h : Fresh rest) :
    readPieces rest [] = (rest, []) := by
  rcases h with rfl | ⟨c, bytes, rest, rfl⟩
  · rfl
  · simp [readPieces]

theorem Delivers.silent_append {ps ps' : List Piece} {data : Bytes} {cbs : List Callback}
    (bytes tail : Bytes) (h : Delivers (.silent tail :: ps) data cbs ps') :
    Delivers (.silent (bytes ++ tail) :: ps) (bytes ++ data) cbs ps' := by
  induction bytes with
  | nil => exact h
  | cons c bytes ih => exact .silent ih

theorem prefix_drop {a b data : Bytes} (h : data <+: a ++ b) (hl : a.length ≤ data.length) :
    data = a ++ data.drop a.length ∧ data.drop a.length <+: b := by
  obtain ⟨t, ht⟩ := List.prefix_of_prefix_length_le (List.prefix_append a b) h hl
  rw [← ht, List.prefix_append_right_inj] at h
  simpa [← ht] using h

theorem prefix_short {a b data : Bytes} (h : data <+: a ++ b) (hl : ¬ a.length ≤ data.length) :
    ∃ tail, a = data ++ tail ∧ tail ≠ [] := by
  have hpre : data <+: a :=
    List.prefix_of_prefix_length_le h (List.prefix_append a b) (by omega)
  obtain ⟨tail, rfl⟩ := hpre
  refine ⟨tail, rfl, fun hnil => hl ?_⟩
  simp [hnil]

theorem not_due {p : Piece} {ps : List Piece} (hc : p.isComplete = false) (hb : p.bytes ≠ []) :
    completionDue (p :: ps) = false := by
  cases p with
  | complete _ => cases hc
  | silent _ => simp only [completionDue, beq_eq_false_iff_ne.mpr hb, Bool.false_and]
  | span _ _ _ => simp only [completionDue, beq_eq_false_iff_ne.mpr hb, Bool.false_and]

theorem readPieces_delivers {ps rest : List Piece} (hr : Fresh rest) {data : Bytes}
    (hd : data <+: wireOf ps) : ∃ ps', (readPieces (ps ++ rest) data).1 = ps' ++ rest ∧
      Delivers ps data (readPieces (ps ++ rest) data).2 ps' := by
  induction ps generalizing data with
  | nil =>
    rw [List.prefix_nil.mp hd, List.nil_append, hr.readPieces_nil]
    exact ⟨[], rfl, .stop rfl⟩
  | cons p ps ih =>
    rw [wireOf_cons] at hd
    cases p with
    | complete q =>
      obtain ⟨ps', h1, h2⟩ := ih hd
      exact ⟨ps', h1, .complete h2⟩
    | silent bytes =>
      simp only [Piece.bytes] at hd
      simp only [List.cons_append, readPieces]
      -- the piece is read whole, or the data ends in it
      split
      · rename_i hl
        obtain ⟨hdata, hd'⟩ := prefix_drop hd hl
        obtain ⟨ps', h1, h2⟩ := ih hd'
        have h3 := Delivers.silent_append bytes [] (.skip h2)
        rw [List.append_nil, ← hdata] at h3
        exact ⟨ps', h1, h3⟩
      · rename_i hl
        obtain ⟨tail, rfl, hne⟩ := prefix_short hd hl
        have hdue : completionDue (.silent tail :: ps) = false := not_due rfl hne
        have h3 := Delivers.silent_append data tail (.stop hdue)
        rw [List.append_nil] at h3
        exact ⟨.silent tail :: ps, by simp, h3⟩
    | span kind begun text =>
      simp only [Piece.bytes] at hd
      simp only [List.cons_append, readPieces]
      split
      · rename_i hl
        obtain ⟨hdata, hd'⟩ := prefix_drop hd hl
        obtain ⟨ps', h1, h2⟩ := ih hd'
        have h3 := @Delivers.span kind begun text [] ps _ _ _ (.endSpan h2)
        rw [List.append_nil, ← hdata] at h3
        exact ⟨ps', h1, h3⟩
      · rename_i hl
        obtain ⟨tail, rfl, hne⟩ := prefix_short hd hl
        split
        · rename_i hnil
          subst hnil
          exact ⟨_, rfl, .stop (not_due rfl hne)⟩
        · have hdue : completionDue (.span kind true tail :: ps) = false := not_due rfl hne
          have h3 := @Delivers.span kind begun data tail ps _ _ _ (.stop hdue)
          rw [List.append_nil] at h3
          exact ⟨.span kind true tail :: ps, by simp, h3⟩

/-- The callbacks of a piece that is read whole. -/
def Piece.callbacks : Piece → List Callback
  | .silent _ => []
  | .span kind _ text => [.span kind text]
  | .complete p => [.messageComplete p]

theorem readPieces_append (ps rest : List Piece) (data : Bytes) :
    readPieces (ps ++ rest) (wireOf ps ++ data) =
      ((readPieces rest data).1, ps.flatMap Piece.callbacks ++ (readPieces rest data).2) := by
  induction ps with
  | nil => rfl
  | cons p ps ih =>
    rw [wireOf_cons, List.append_assoc]
    cases p with
    | complete q => simp [readPieces, Piece.bytes, Piece.callbacks, ih]
    | silent bytes => simp [readPieces, Piece.bytes, Piece.callbacks, ih]
    | span kind begun text => simp [readPieces, Piece.bytes, Piece.callbacks, ih]

theorem scripted_reads (script : ParserType → List Piece) : (scripted script).Reads Ahead := by
  rintro st ps data ⟨rest, hr, rfl⟩ hd
  obtain ⟨ps', h1, h2⟩ := readPieces_delivers hr hd
  exact ⟨ps', h2, ⟨rest, hr, h1⟩, by simp [scripted]⟩

/-- `GET http://h/ HTTP/1.1` without headers. -/
def simpleGet : RequestMessage :=
  { method := str "GET", url := str "http://h/", fields := [], body := .plain [] }

/-- The upstream's side of the script comes from `response`. -/
def answering (response : List Piece) : Llhttp :=
  scripted fun
    | .request => simpleGet.message.pieces
    | .response => response

end BurpTUI
