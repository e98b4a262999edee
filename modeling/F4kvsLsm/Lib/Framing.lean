import F4kvsLsm.Lib.Decoder

/-!
# Length-prefixed frames

A frame is a 4-byte length followed by that many bytes.  The scanner reads
frames from the front of a byte string until it meets one of four reasons to
stop, and returns the bodies it has read with that reason.  A scan of whole
frames followed by a tail is the bodies of those frames followed by the scan
of the tail.
-/

namespace ByteCodec

def frame (body : Bytes) : Bytes :=
  toLeBytes 4 body.length ++ body

/-- Several frames, one after the other. -/
def frames (bodies : List Bytes) : Bytes :=
  (bodies.map frame).flatten

inductive ScanEnd where
  | shortLength
  | zeroLength
  | refusedLength
  | shortBody
  deriving DecidableEq, Repr

/-- The scanner; every frame uses one unit of fuel. -/
def scanFramesFuel (accepts : Nat → Bool) :
    Nat → Bytes → List Bytes × ScanEnd
  | 0, _ => ([], .shortLength)
  | fuel + 1, input =>
      match natLe 4 input with
      | none => ([], .shortLength)
      | some (size, input) =>
          if size = 0 then ([], .zeroLength)
          else if accepts size then
            match takeBytes size input with
            | none => ([], .shortBody)
            | some (body, input) =>
                let scanned := scanFramesFuel accepts fuel input
                (body :: scanned.1, scanned.2)
          else ([], .refusedLength)

/-- Scan a whole byte string. -/
def scanFrames (accepts : Nat → Bool) (input : Bytes) :
    List Bytes × ScanEnd :=
  scanFramesFuel accepts input.length input

/-- A body that a scan reads back: not empty, and of an accepted length that
the length field can hold. -/
structure Framable (accepts : Nat → Bool) (body : Bytes) : Prop where
  nonempty : body.length ≠ 0
  fits : body.length < 2 ^ 32
  accepted : accepts body.length = true

@[simp]
theorem frame_length (body : Bytes) :
    (frame body).length = 4 + body.length := by
  simp [frame]

@[simp]
theorem frames_nil : frames [] = [] := rfl

@[simp]
theorem frames_cons (body : Bytes) (bodies : List Bytes) :
    frames (body :: bodies) = frame body ++ frames bodies := by
  simp [frames]

@[simp]
theorem frames_append (front back : List Bytes) :
    frames (front ++ back) = frames front ++ frames back := by
  simp [frames]

private theorem encodedLength_reads
    {size : Nat} (fits : size < 2 ^ 32) :
    Reads (natLe 4) (toLeBytes 4 size) size :=
  natLe_reads (by norm_num at fits ⊢; exact fits)

section

variable {accepts : Nat → Bool}

theorem scanFramesFuel_eq_scanFrames
    {fuel : Nat} {input : Bytes} (enough : input.length ≤ fuel) :
    scanFramesFuel accepts fuel input = scanFrames accepts input := by
  unfold scanFrames
  induction fuel using Nat.strong_induction_on generalizing input with
  | _ fuel inductionHypothesis =>
      cases fuel with
      | zero =>
          have empty : input.length = 0 := by omega
          rw [empty]
      | succ fuel =>
          cases bound : input.length with
          | zero =>
              have short : natLe 4 input = none :=
                natLe_eq_none (by omega)
              simp [scanFramesFuel, short]
          | succ bound' =>
              simp only [scanFramesFuel]
              cases header : natLe 4 input with
              | none => rfl
              | some pair =>
                  obtain ⟨size, rest⟩ := pair
                  have shorter := congrArg List.length
                    (natLe_eq_some header).1
                  simp only [List.length_append, toLeBytes_length] at shorter
                  simp only
                  cases taken : takeBytes size rest with
                  | none => rfl
                  | some pair' =>
                      obtain ⟨body, rest'⟩ := pair'
                      have split := takeBytes_eq_some taken
                      have restLength := congrArg List.length split.1
                      simp only [List.length_append] at restLength
                      have left :
                          scanFramesFuel accepts fuel rest' = _ :=
                        inductionHypothesis fuel (by omega) (by omega)
                      have right :
                          scanFramesFuel accepts bound' rest' = _ :=
                        inductionHypothesis bound' (by omega) (by omega)
                      simp only [left, right]

/-- A scan reads the frame in front and goes on behind it. -/
theorem scanFrames_frame_append
    {body : Bytes} (framable : Framable accepts body) (tail : Bytes) :
    scanFrames accepts (frame body ++ tail) =
      (body :: (scanFrames accepts tail).1, (scanFrames accepts tail).2) := by
  have header : natLe 4 (frame body ++ tail) =
      some (body.length, body ++ tail) := by
    have reads := encodedLength_reads framable.fits (body ++ tail)
    simpa [frame] using reads
  have taken : takeBytes body.length (body ++ tail) = some (body, tail) :=
    takeBytes_reads rfl tail
  have fuel : (frame body ++ tail).length =
      (3 + body.length + tail.length) + 1 := by
    simp
    omega
  rw [scanFrames, fuel]
  simp only [scanFramesFuel, header, taken, if_neg framable.nonempty,
    if_pos framable.accepted]
  rw [scanFramesFuel_eq_scanFrames (by omega)]

theorem scanFrames_frames_append
    {bodies : List Bytes}
    (framable : ∀ body ∈ bodies, Framable accepts body) (tail : Bytes) :
    scanFrames accepts (frames bodies ++ tail) =
      (bodies ++ (scanFrames accepts tail).1,
        (scanFrames accepts tail).2) := by
  induction bodies with
  | nil => simp
  | cons body bodies inductionHypothesis =>
      have front := framable body (by simp)
      have back := inductionHypothesis
        (fun other member => framable other (by simp [member]))
      rw [frames_cons, List.append_assoc, scanFrames_frame_append front, back]
      simp

@[simp]
theorem scanFrames_nil : scanFrames accepts [] = ([], .shortLength) := rfl

theorem scanFrames_short
    {input : Bytes} (short : input.length < 4) :
    scanFrames accepts input = ([], .shortLength) := by
  rw [← scanFramesFuel_eq_scanFrames (Nat.le_succ _)]
  simp [scanFramesFuel, natLe_eq_none short]

/-- A strict prefix of a frame yields no body.  Whether the scan sees the end
of the input in the length field or in the body depends on the cut. -/
theorem scanFrames_take_frame
    {body : Bytes} (framable : Framable accepts body)
    {cut : Nat} (strict : cut < (frame body).length) :
    scanFrames accepts ((frame body).take cut) =
      ([], if cut < 4 then .shortLength else .shortBody) := by
  by_cases inLength : cut < 4
  · rw [if_pos inLength]
    exact scanFrames_short (by simp; omega)
  · rw [if_neg inLength]
    rw [frame_length] at strict
    have torn : (frame body).take cut =
        toLeBytes 4 body.length ++ body.take (cut - 4) := by
      rw [frame, List.take_append, toLeBytes_length,
        List.take_of_length_le (by simp; omega)]
    have header : natLe 4 ((frame body).take cut) =
        some (body.length, body.take (cut - 4)) := by
      rw [torn]
      exact encodedLength_reads framable.fits _
    have short : takeBytes body.length (body.take (cut - 4)) = none :=
      takeBytes_eq_none (by simp; omega)
    rw [← scanFramesFuel_eq_scanFrames (Nat.le_succ _)]
    simp [scanFramesFuel, header, short, framable.nonempty,
      framable.accepted]

theorem scanFrames_zeros (count : Nat) :
    (scanFrames accepts (List.replicate count 0)).1 = [] := by
  by_cases short : count < 4
  · rw [scanFrames_short (by simpa using short)]
  · have zero : fromLeBytes ((List.replicate count 0).take 4) = 0 := by
      rw [List.take_replicate, Nat.min_eq_left (by omega)]
      rfl
    have enough : 4 ≤ (List.replicate count (0 : UInt8)).length := by
      simp
      omega
    have header := natLe_of_le_length enough
    rw [zero] at header
    rw [← scanFramesFuel_eq_scanFrames (Nat.le_succ _)]
    simp [scanFramesFuel, header]

end

end ByteCodec
