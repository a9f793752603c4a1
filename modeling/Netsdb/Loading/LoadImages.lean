import Netsdb.Conv2d.ImageToChunks
import Netsdb.FF.LoadMatrix
import Netsdb.Loading.LAInitializerNode

/-!
# Images of a file (`ImageUtils.cc`)

`load_imgs_from_file` makes an image, adds its channels and appends it.  Each of these may run out of memory;
then the images that are there are sent, and `c_created` and `image_created` tell what is to be done again.

* `LoadImages.round`    the body of the `try`;
* `LoadImages.Loads`    each image of the file is sent once, with its channels;
* `Kept.round`          the rule for what the operations keep;
* `InStep`, `Gone`      where a run is: before an image, in its channels, before a repeated `push_back`, or out
                        of step;
* `loaders_iff`         both loaders, and when they are right.
-/

set_option linter.unusedSectionVars false

namespace Netsdb.LoadImages
open LoadMatrix (Input)
variable {V : Type}

/-! ## The loader -/

/-- the parameters of `load_imgs_from_file` -/
structure Plan where
  imgCount : ℕ
  channels : ℕ
  x : ℕ
  y : ℕ

/-- a `Matrix3D`, with a list for each channel -/
abbrev Img (V : Type) := Conv2d.Image (List (List V))

/-- `none`: a null handle -/
structure State (V : Type) where
  im : ℕ
  c : ℕ
  cCreated : ℕ
  imageCreated : ℕ
  rollback : Bool
  myData : Option (Img V)
  chan : Option (List V)
  input : Input V
  makes : Attempts
  chans : Attempts
  adds : Attempts
  pushes : Attempts
  images : List (Option (Img V))
  sent : List (Option (Img V))

/-- how often the four operations fail -/
structure Faults where
  makes : ℕ → ℕ
  chans : ℕ → ℕ
  adds : ℕ → ℕ
  pushes : ℕ → ℕ

/-- the state behind some statements, or where `NotEnoughSpace` was thrown; `none`: a null handle was
followed -/
abbrev Run (V : Type) := Except (Option (State V))

section
variable (p : Plan) (f : Faults)

/-- `makeObject<M> (im, x, y, channels)` -/
def makeImage (s : State V) : Run V (State V) :=
  if s.makes.Fails f.makes then .error (some { s with makes := s.makes.fail })
  else .ok { s with makes := s.makes.succeed, myData := some ⟨s.im, p.x, p.y, p.channels, []⟩ }

/-- the two loops over a channel; value `i * y + j` is read after that many others -/
def readValues : ℕ → Input V → List V × Input V
  | 0, s => ([], s)
  | n + 1, s =>
    let s := s.next
    let (values, s') := readValues n s
    (s.val :: values, s')

def makeChannel (s : State V) : Run V (State V) :=
  if s.chans.Fails f.chans then .error (some { s with chans := s.chans.fail })
  else
    let (values, input) := readValues (p.x * p.y) s.input
    .ok { s with chans := s.chans.succeed, chan := some values, input }

def addChannel (s : State V) : Run V (State V) :=
  match s.myData, s.chan with
  | some data, some chan =>
    if s.adds.Fails f.adds then .error (some { s with adds := s.adds.fail })
    else .ok { s with
      adds := s.adds.succeed, myData := some { data with matrices := data.matrices ++ [chan] } }
  | _, _ => .error none

def pushImage (s : State V) : Run V (State V) :=
  if s.pushes.Fails f.pushes then .error (some { s with pushes := s.pushes.fail })
  else .ok { s with pushes := s.pushes.succeed, images := s.images ++ [s.myData] }

/-- `while (c < channels)`, for as many channels as are missing -/
def channelLoop : ℕ → State V → Run V (State V)
  | 0, s => .ok s
  | n + 1, s => do
    let s ← makeChannel p f s
    let s := { s with cCreated := s.cCreated + 1 }
    let s ← addChannel f s
    channelLoop n { s with c := s.c + 1 }

/-- a channel that has been made is added -/
def redoChannel (s : State V) : Run V (State V) :=
  if s.rollback ∧ s.c < s.cCreated then do
    let s ← addChannel f s
    return { s with c := s.c + 1 }
  else return s

/-- an image that has been made is appended, and the next one made -/
def redoImage (s : State V) : Run V (State V) :=
  if s.rollback ∧ s.im < s.imageCreated then do
    let s ← pushImage f s
    let s := { s with im := s.im + 1 }
    makeImage p f s
  else return s

/-- what a rollback has left to do, or the next image -/
def resume (s : State V) : Run V (State V) := do
  let s ← if s.rollback then .ok s else makeImage p f s
  let s ← redoChannel f s
  redoImage p f s

def round (s : State V) : Run V (State V) := do
  let s ← resume p f s
  let s ← channelLoop p f (p.channels - s.c) { s with rollback := false }
  let s ← pushImage f { s with imageCreated := s.imageCreated + 1 }
  return { s with im := s.im + 1, c := 0, cCreated := 0 }

/-- the exception handler -/
def State.dispatch (s : State V) : State V :=
  { s with sent := s.sent ++ s.images, images := [], rollback := true }

/-- `none`: all images are there, or a null handle was followed -/
def step (s : State V) : Option (State V) :=
  if s.im < p.imgCount then
    match round p f s with
    | .ok t => some t
    | .error (some t) => some t.dispatch
    | .error none => none
  else none

/-- channel `c` of image `k` -/
def channel (file : ℕ → ℕ → ℕ → V) (k c : ℕ) : List V := (List.range (p.x * p.y)).map (file k c)

/-- image `k` with its first channels -/
def partialImage (file : ℕ → ℕ → ℕ → V) (k c : ℕ) : Img V :=
  ⟨k, p.x, p.y, p.channels, (List.range c).map (channel p file k)⟩

/-- the values from image `k` on -/
def rest (file : ℕ → ℕ → ℕ → V) (k : ℕ) : List V :=
  ((List.range p.imgCount).drop k).flatMap fun k => (List.range p.channels).flatMap (channel p file k)

def start (file : ℕ → ℕ → ℕ → V) (val : V) : State V :=
  { im := 0, c := 0, cCreated := 0, imageCreated := 0, rollback := false, myData := none, chan := none
    input := ⟨rest p file 0, val⟩, makes := .start, chans := .start, adds := .start, pushes := .start
    images := [], sent := [] }

/-- the images of the file up to image `k` -/
def expected (file : ℕ → ℕ → ℕ → V) (k : ℕ) : List (Option (Img V)) :=
  (List.range k).map fun k => some (partialImage p file k p.channels)

/-- each image of the file is sent once -/
def Loads (V : Type) : Prop :=
  ∀ (file : ℕ → ℕ → ℕ → V) (val : V), ∃ s, Steps (step p f) (start p file val) s ∧ ¬ s.im < p.imgCount ∧
    (s.sent ++ s.images).Perm (expected p file p.imgCount)

/-- images can be made, and appended at once; the last one may fail if the next one cannot be made or
appended either -/
def Fits : Prop :=
  (∀ k < p.imgCount, f.makes k = 0) ∧
    (p.channels = 0 ∨ ∀ k, k + 1 < p.imgCount → f.pushes k = 0) ∧
    ∀ k, k + 1 = p.imgCount → f.pushes k = 0 ∨ 0 < f.makes (k + 1) ∨ 0 < f.pushes (k + 1)

end

/-! ## What holds behind some statements -/

section
variable {r : Run V (State V)} {crash : Prop} {ok thrown ok' thrown' : State V → Prop} {s : State V}
  {p : Plan} {f : Faults}

/-- `ok` holds behind them, or `thrown` where the exception was thrown -/
def Behind (crash : Prop) (r : Run V (State V)) (ok thrown : State V → Prop) : Prop :=
  match r with
  | .ok t => ok t
  | .error (some t) => thrown t
  | .error none => crash

theorem Behind.bind {g : State V → Run V (State V)}
    (h : Behind crash r (fun t => Behind crash (g t) ok thrown) thrown) :
    Behind crash (r >>= g) ok thrown := by
  match r with
  | .ok _ => exact h
  | .error (some _) => exact h
  | .error none => exact h

theorem Behind.mono (h : Behind crash r ok thrown) (hok : ∀ t, ok t → ok' t)
    (hthrown : ∀ t, thrown t → thrown' t) : Behind crash r ok' thrown' := by
  match r with
  | .ok t => exact hok t h
  | .error (some t) => exact hthrown t h
  | .error none => exact h

theorem behind_makeImage (hthrown : s.makes.Fails f.makes → thrown { s with makes := s.makes.fail })
    (hok : ¬ s.makes.Fails f.makes →
      ok { s with makes := s.makes.succeed, myData := some ⟨s.im, p.x, p.y, p.channels, []⟩ }) :
    Behind crash (makeImage p f s) ok thrown := by
  unfold makeImage
  split
  · next h => exact hthrown h
  · next h => exact hok h

theorem behind_makeChannel (hthrown : s.chans.Fails f.chans → thrown { s with chans := s.chans.fail })
    (hok : ok { s with
      chans := s.chans.succeed, chan := some (readValues (p.x * p.y) s.input).1
      input := (readValues (p.x * p.y) s.input).2 }) :
    Behind crash (makeChannel p f s) ok thrown := by
  unfold makeChannel
  split
  · next h => exact hthrown h
  · exact hok

theorem behind_addChannel (hcrash : s.myData = none ∨ s.chan = none → crash)
    (hthrown : s.adds.Fails f.adds → thrown { s with adds := s.adds.fail })
    (hok : ∀ data chan, s.myData = some data → s.chan = some chan →
      ok { s with
        adds := s.adds.succeed, myData := some { data with matrices := data.matrices ++ [chan] } }) :
    Behind crash (addChannel f s) ok thrown := by
  unfold addChannel
  split
  · next data chan hdata hchan =>
    split
    · next h => exact hthrown h
    · exact hok data chan hdata hchan
  · next hnone =>
    refine hcrash ?_
    cases hdata : s.myData with
    | none => exact .inl rfl
    | some data =>
      cases hchan : s.chan with
      | none => exact .inr rfl
      | some chan => exact (hnone data chan hdata hchan).elim

theorem behind_pushImage (hthrown : s.pushes.Fails f.pushes → thrown { s with pushes := s.pushes.fail })
    (hok : ¬ s.pushes.Fails f.pushes →
      ok { s with pushes := s.pushes.succeed, images := s.images ++ [s.myData] }) :
    Behind crash (pushImage f s) ok thrown := by
  unfold pushImage
  split
  · next h => exact hthrown h
  · next h => exact hok h

theorem behind_channelLoop {I : ℕ → State V → Prop}
    (hstep : ∀ n s, I (n + 1) s → Behind crash (makeChannel p f s) (fun s =>
      Behind crash (addChannel f { s with cCreated := s.cCreated + 1 })
        (fun s => I n { s with c := s.c + 1 }) thrown) thrown) :
    ∀ n s, I n s → Behind crash (channelLoop p f n s) (I 0) thrown := by
  intro n
  induction n with
  | zero => exact fun s h => h
  | succ n ih =>
    intro s h
    refine Behind.bind ((hstep n s h).mono (fun s hs => ?_) fun _ => id)
    exact Behind.bind (hs.mono (fun s hs => ih _ hs) fun _ => id)

theorem redoChannel_eq (h : ¬ s.c < s.cCreated) : redoChannel f s = .ok s := if_neg fun hc => h hc.2

theorem redoImage_eq (h : ¬ s.im < s.imageCreated) : redoImage p f s = .ok s := if_neg fun hc => h hc.2

theorem behind_resume
    (hmake : s.rollback = false → Behind crash (makeImage p f s) (fun s =>
      Behind crash (redoChannel f s >>= redoImage p f) ok thrown) thrown)
    (hredo : s.rollback = true → Behind crash (redoChannel f s >>= redoImage p f) ok thrown) :
    Behind crash (resume p f s) ok thrown := by
  unfold resume
  cases hr : s.rollback with
  | true => exact hredo hr
  | false => exact Behind.bind (hmake hr)

theorem behind_round
    (h : Behind crash (resume p f s) (fun s =>
      Behind crash (channelLoop p f (p.channels - s.c) { s with rollback := false }) (fun s =>
        Behind crash (pushImage f { s with imageCreated := s.imageCreated + 1 })
          (fun s => ok { s with im := s.im + 1, c := 0, cCreated := 0 }) thrown) thrown) thrown) :
    Behind crash (round p f s) ok thrown := by
  refine Behind.bind (h.mono (fun s hs => ?_) fun _ => id)
  refine Behind.bind (hs.mono (fun s hs => ?_) fun _ => id)
  exact Behind.bind hs

/-- a step ends where `round` does -/
theorem step_cases {t : State V} (h : Behind crash (round p f s) ok thrown)
    (ht : step p f s = some t) : ok t ∨ ∃ u, thrown u ∧ t = u.dispatch := by
  unfold step at ht
  split at ht
  · revert ht
    cases hr : round p f s with
    | ok u =>
      rintro ⟨⟩
      rw [hr] at h
      exact .inl h
    | error u =>
      cases u with
      | none => rintro ⟨⟩
      | some u =>
        rintro ⟨⟩
        rw [hr] at h
        exact .inr ⟨u, h, rfl⟩
  · cases ht

/-! ## What the operations keep -/

/-- kept by the operations, and by the counters -/
structure Kept (p : Plan) (f : Faults) (K thrown : State V → Prop) : Prop where
  counters : ∀ (s : State V) (c cCreated imageCreated : ℕ) (rollback : Bool), K s →
    K { s with c, cCreated, imageCreated, rollback }
  makeChannel : ∀ s : State V, K s → Behind True (makeChannel p f s) K thrown
  addChannel : ∀ s : State V, K s → Behind True (addChannel f s) K thrown
  pushImage : ∀ s : State V, K s → Behind True (pushImage f s) K thrown
  makeImage : ∀ s : State V, K s → Behind True (makeImage p f { s with im := s.im + 1 }) K thrown

section
variable {K : State V → Prop}

theorem Kept.redo (h : Kept p f K thrown) (hs : K s) :
    Behind True (redoChannel f s >>= redoImage p f) K thrown := by
  refine Behind.bind ?_
  have hchan : Behind True (redoChannel f s) K thrown := by
    unfold redoChannel
    split
    · exact Behind.bind ((h.addChannel s hs).mono (fun t ht => h.counters t (t.c + 1) t.cCreated
        t.imageCreated t.rollback ht) fun _ => id)
    · exact hs
  refine hchan.mono (fun s hs => ?_) fun _ => id
  unfold redoImage
  split
  · exact Behind.bind ((h.pushImage s hs).mono (fun t ht => h.makeImage t ht) fun _ => id)
  · exact hs

theorem Kept.finish (h : Kept p f K thrown) (hs : K s)
    (hend : ∀ s, K s → Behind True (LoadImages.pushImage f s)
      (fun s => ok { s with im := s.im + 1, c := 0, cCreated := 0 }) thrown) :
    Behind True (channelLoop p f (p.channels - s.c) { s with rollback := false }) (fun s =>
      Behind True (LoadImages.pushImage f { s with imageCreated := s.imageCreated + 1 })
        (fun s => ok { s with im := s.im + 1, c := 0, cCreated := 0 }) thrown) thrown := by
  have hloop := behind_channelLoop (I := fun _ => K) (fun _ s hs => (h.makeChannel s hs).mono
    (fun s hs => (h.addChannel _ (h.counters s s.c (s.cCreated + 1) s.imageCreated s.rollback hs)).mono
      (fun s hs => h.counters s (s.c + 1) s.cCreated s.imageCreated s.rollback hs) fun _ => id) fun _ => id)
    (p.channels - s.c) _ (h.counters s s.c s.cCreated s.imageCreated false hs)
  refine hloop.mono (fun s hs => ?_) fun _ => id
  exact hend _ (h.counters s s.c s.cCreated (s.imageCreated + 1) s.rollback hs)

/-- the rule of the loop -/
theorem Kept.round (h : Kept p f K thrown) (hs : K s)
    (hmake : s.rollback = false → Behind True (LoadImages.makeImage p f s) K thrown)
    (hend : ∀ s, K s → Behind True (LoadImages.pushImage f s)
      (fun s => ok { s with im := s.im + 1, c := 0, cCreated := 0 }) thrown) :
    Behind True (round p f s) ok thrown := by
  refine behind_round ?_
  have hresume : Behind True (resume p f s) K thrown :=
    behind_resume (fun hr => (hmake hr).mono (fun t ht => h.redo ht) fun _ => id) fun _ => h.redo hs
  exact hresume.mono (fun s hs => h.finish hs hend) fun _ => id

end

/-! ## Wrong images -/

section
variable {file : ℕ → ℕ → ℕ → V}

/-- what is sent or to be sent -/
def State.all (s : State V) : List (Option (Img V)) := s.sent ++ s.images

theorem dispatch_all (s : State V) : s.dispatch.all = s.all := List.append_nil _

/-- not as in the file -/
def Wrong (p : Plan) (file : ℕ → ℕ → ℕ → V) (s : State V) : Prop :=
  ¬ s.all.Subperm (expected p file p.imgCount)

theorem Wrong.push (h : Wrong p file s) (a : Attempts) :
    Wrong p file { s with pushes := a, images := s.images ++ [s.myData] } := by
  intro hsub
  have hsub : (s.sent ++ (s.images ++ [s.myData])).Subperm (expected p file p.imgCount) := hsub
  rw [← List.append_assoc] at hsub
  exact h ((List.sublist_append_left _ _).subperm.trans hsub)

/-- what is sent stays sent -/
theorem wrong_kept (hthrown : ∀ s, Wrong p file s → thrown s) : Kept p f (Wrong p file) thrown :=
  { counters := fun _ _ _ _ _ h => h
    makeChannel := fun _ h => behind_makeChannel (fun _ => hthrown _ h) h
    addChannel := fun _ h => behind_addChannel (fun _ => trivial) (fun _ => hthrown _ h) fun _ _ _ _ => h
    pushImage := fun _ h => behind_pushImage (fun _ => hthrown _ h) fun _ => h.push _
    makeImage := fun _ h => behind_makeImage (fun _ => hthrown _ h) fun _ => h }

theorem Wrong.step {t : State V} (h : Wrong p file s) (ht : step p f s = some t) : Wrong p file t := by
  have hround : Behind True (round p f s) (Wrong p file) (Wrong p file) :=
    (wrong_kept fun _ h => h).round h (fun _ => behind_makeImage (fun _ => h) fun _ => h)
      fun s hs => behind_pushImage (fun _ => hs) fun _ => hs.push s.pushes.succeed
  rcases step_cases hround ht with h | ⟨u, hu, rfl⟩
  · exact h
  · exact fun hsub => hu (dispatch_all u ▸ hsub)

end

/-! ## An image that is missing -/

/-- image `k` has not been made -/
structure Missed (k : ℕ) (s : State V) : Prop where
  all : ∀ img, some img ∈ s.all → img.index ≠ k
  myData : ∀ img, s.myData = some img → img.index ≠ k
  le : k ≤ s.im

/-- and will not be -/
def Missing (k : ℕ) (s : State V) : Prop := Missed k s ∧ (s.rollback = true ∨ k < s.im)

theorem Missed.push {k : ℕ} (h : Missed k s) (a : Attempts) :
    Missed k { s with pushes := a, images := s.images ++ [s.myData] } := by
  refine ⟨fun img himg => ?_, h.myData, h.le⟩
  have himg : some img ∈ s.sent ++ (s.images ++ [s.myData]) := himg
  rw [← List.append_assoc] at himg
  rcases List.mem_append.mp himg with himg | himg
  · exact h.all img himg
  · exact h.myData img (List.mem_singleton.mp himg).symm

theorem Missed.make {k : ℕ} (h : Missed k s) (hne : s.im ≠ k) (a : Attempts) :
    Missed k { s with makes := a, myData := some ⟨s.im, p.x, p.y, p.channels, []⟩ } :=
  ⟨h.all, fun _ himg => (Option.some.inj himg) ▸ hne, h.le⟩

theorem missed_kept (k : ℕ) : Kept p f (Missed (V := V) k) (Missed k) :=
  { counters := fun _ _ _ _ _ h => ⟨h.all, h.myData, h.le⟩
    makeChannel := fun _ h => behind_makeChannel (fun _ => ⟨h.all, h.myData, h.le⟩) ⟨h.all, h.myData, h.le⟩
    addChannel := fun _ h => behind_addChannel (fun _ => trivial) (fun _ => ⟨h.all, h.myData, h.le⟩)
      fun data _ hdata _ => ⟨h.all, fun _ himg => (Option.some.inj himg) ▸ h.myData data hdata, h.le⟩
    pushImage := fun _ h => behind_pushImage (fun _ => ⟨h.all, h.myData, h.le⟩) fun _ => h.push _
    makeImage := fun s h =>
      have hnext : Missed k { s with im := s.im + 1 } := ⟨h.all, h.myData, Nat.le_succ_of_le h.le⟩
      behind_makeImage (fun _ => ⟨hnext.all, hnext.myData, hnext.le⟩) fun _ =>
        hnext.make (Nat.lt_succ_of_le h.le).ne' _ }

theorem Missing.step {k : ℕ} {t : State V} (h : Missing k s) (ht : step p f s = some t) : Missing k t := by
  obtain ⟨hs, him⟩ := h
  have hround : Behind True (round p f s) (Missing k) (Missed k) := by
    refine (missed_kept k).round hs (fun hr => ?_) fun s hs => ?_
    · have hlt : k < s.im := him.resolve_left (by rw [hr]; exact Bool.false_ne_true)
      exact behind_makeImage (fun _ => ⟨hs.all, hs.myData, hs.le⟩) fun _ => hs.make hlt.ne' _
    · refine behind_pushImage (fun _ => ⟨hs.all, hs.myData, hs.le⟩) fun _ => ?_
      have hpush := hs.push s.pushes.succeed
      exact ⟨⟨hpush.all, hpush.myData, Nat.le_succ_of_le hs.le⟩, .inr (Nat.lt_succ_of_le hs.le)⟩
  rcases step_cases hround ht with h | ⟨u, hu, rfl⟩
  · exact h
  · exact ⟨⟨fun img himg => hu.all img (dispatch_all u ▸ himg), hu.myData, hu.le⟩, .inl rfl⟩

/-! ## An empty image -/

section
variable {file : ℕ → ℕ → ℕ → V}

theorem length_expected (k : ℕ) : (expected p file k).length = k := by
  rw [expected, List.length_map, List.length_range]

theorem expected_succ (k : ℕ) :
    expected p file (k + 1) = expected p file k ++ [some (partialImage p file k p.channels)] := by
  rw [expected, List.range_succ, List.map_append]
  rfl

theorem index_lt {k : ℕ} {img : Img V} (h : some img ∈ expected p file k) : img.index < k := by
  obtain ⟨i, hi, hi'⟩ := List.mem_map.mp h
  rw [← Option.some.inj hi']
  exact List.mem_range.mp hi

/-- an empty image, or one more than there are -/
theorem wrong_of_push (hall : s.all = expected p file s.im)
    (hdata : s.myData = some (partialImage p file s.im 0)) (h : 0 < p.channels ∨ s.im = p.imgCount)
    (a : Attempts) : Wrong p file { s with pushes := a, images := s.images ++ [s.myData] } := by
  intro hsub
  have hsub : (s.sent ++ (s.images ++ [s.myData])).Subperm (expected p file p.imgCount) := hsub
  have hall : s.sent ++ s.images = expected p file s.im := hall
  rw [← List.append_assoc, hall, hdata] at hsub
  rcases h with hc | him
  · obtain ⟨k, -, hk⟩ := List.mem_map.mp (hsub.subset (List.mem_append_right _ List.mem_cons_self))
    have hlen := congrArg (fun img : Img V => img.matrices.length) (Option.some.inj hk)
    simp only [partialImage, List.length_map, List.length_range] at hlen
    omega
  · have hlen := hsub.length_le
    rw [List.length_append, length_expected, length_expected, List.length_singleton] at hlen
    omega

/-- an image without its channels is to be appended -/
structure Pending (p : Plan) (file : ℕ → ℕ → ℕ → V) (s : State V) : Prop where
  lt : s.im < p.imgCount
  pos : 0 < p.channels
  all : s.all = expected p file s.im
  myData : s.myData = some (partialImage p file s.im 0)
  cCreated : s.cCreated = s.c
  imageCreated : s.imageCreated = s.im + 1

theorem Pending.resume (h : Pending p file s) (hr : s.rollback = true) :
    Behind True (resume p f s) (Wrong p file) fun t => Pending p file t ∨ Wrong p file t := by
  refine behind_resume (fun hr' => absurd (hr'.symm.trans hr) Bool.false_ne_true) fun _ => ?_
  rw [redoChannel_eq h.cCreated.not_gt]
  show Behind _ (redoImage p f s) _ _
  unfold redoImage
  rw [if_pos ⟨hr, h.imageCreated ▸ Nat.lt_succ_self _⟩]
  refine Behind.bind (behind_pushImage
    (fun _ => .inl ⟨h.lt, h.pos, h.all, h.myData, h.cCreated, h.imageCreated⟩) fun _ => ?_)
  have hwrong := wrong_of_push h.all h.myData (.inl h.pos) s.pushes.succeed
  exact behind_makeImage (fun _ => .inr hwrong) fun _ => hwrong

theorem Pending.step {t : State V} (h : Pending p file s) (hr : s.rollback = true)
    (ht : step p f s = some t) : Pending p file t ∧ t.rollback = true ∨ Wrong p file t := by
  have hround : Behind True (round p f s) (Wrong p file) fun t => Pending p file t ∨ Wrong p file t :=
    behind_round ((h.resume hr).mono (fun s hs => (wrong_kept fun _ h => .inr h).finish hs
      fun s hs => behind_pushImage (fun _ => .inr hs) fun _ => hs.push s.pushes.succeed) fun _ => id)
  rcases step_cases hround ht with h | ⟨u, hu | hu, rfl⟩
  · exact .inr h
  · exact .inl ⟨⟨hu.lt, hu.pos, (dispatch_all u).trans hu.all, hu.myData, hu.cCreated, hu.imageCreated⟩, rfl⟩
  · exact .inr fun hsub => hu (dispatch_all u ▸ hsub)

end

/-! ## Reading a channel -/

section
variable {file : ℕ → ℕ → ℕ → V}

theorem readValues_eq (l rest : List V) (val : V) : ∃ val',
    readValues l.length ⟨l ++ rest, val⟩ = (l, ⟨rest, val'⟩) := by
  induction l generalizing val with
  | nil => exact ⟨val, rfl⟩
  | cons v l ih =>
    obtain ⟨val', hv⟩ := ih v
    refine ⟨val', ?_⟩
    show (v :: (readValues l.length ⟨l ++ rest, v⟩).1, (readValues l.length ⟨l ++ rest, v⟩).2) = _
    rw [hv]

/-- the values from channel `c` of image `k` on -/
def restOf (p : Plan) (file : ℕ → ℕ → ℕ → V) (k c : ℕ) : List V :=
  ((List.range p.channels).drop c).flatMap (channel p file k) ++ rest p file (k + 1)

theorem rest_eq {k : ℕ} (hk : k < p.imgCount) : rest p file k = restOf p file k 0 := by
  rw [rest, List.drop_eq_getElem_cons (by rw [List.length_range]; exact hk), List.flatMap_cons,
    List.getElem_range]
  rfl

theorem restOf_eq {k c : ℕ} (hc : c < p.channels) :
    restOf p file k c = channel p file k c ++ restOf p file k (c + 1) := by
  rw [restOf, List.drop_eq_getElem_cons (by rw [List.length_range]; exact hc), List.flatMap_cons,
    List.getElem_range, List.append_assoc]
  rfl

theorem restOf_channels (k : ℕ) : restOf p file k p.channels = rest p file (k + 1) := by
  rw [restOf, List.drop_of_length_le (List.length_range ..).le]
  rfl

/-- the next channel is read -/
theorem read_channel {k c : ℕ} (hc : c < p.channels) (hin : s.input.rest = restOf p file k c) :
    (readValues (p.x * p.y) s.input).1 = channel p file k c ∧
      (readValues (p.x * p.y) s.input).2.rest = restOf p file k (c + 1) := by
  obtain ⟨val', hv⟩ := readValues_eq (channel p file k c) (restOf p file k (c + 1)) s.input.val
  have hinput : s.input = ⟨channel p file k c ++ restOf p file k (c + 1), s.input.val⟩ := by
    rw [← restOf_eq hc, ← hin]
  rw [show p.x * p.y = (channel p file k c).length by rw [channel, List.length_map, List.length_range],
    hinput, hv]
  exact ⟨rfl, rfl⟩

theorem partialImage_succ (k c : ℕ) : { partialImage p file k c with
    matrices := (partialImage p file k c).matrices ++ [channel p file k c] } = partialImage p file k (c + 1) := by
  rw [partialImage, partialImage, List.range_succ, List.map_append]
  rfl

end

/-! ## In step -/

section
variable {file : ℕ → ℕ → ℕ → V}

/-- the images before `im` are there -/
structure Base (p : Plan) (f : Faults) (file : ℕ → ℕ → ℕ → V) (s : State V) : Prop where
  bound : s.im ≤ p.imgCount
  all : s.all = expected p file s.im
  chans : s.chans.made = s.im * p.channels + s.cCreated
  adds : s.adds.made = s.im * p.channels + s.c
  makes : ∀ k < s.im, f.makes k = 0
  pushes : ∀ k < s.im, f.pushes k = 0 ∨ p.channels = 0 ∧ k + 1 < p.imgCount

/-- before an image -/
structure Fresh (p : Plan) (f : Faults) (file : ℕ → ℕ → ℕ → V) (s : State V) : Prop extends
    Base p f file s where
  rollback : s.rollback = false
  c : s.c = 0
  cCreated : s.cCreated = 0
  imageCreated : s.imageCreated = s.im
  made : s.makes = ⟨s.im, 0⟩
  pushed : s.pushes = ⟨s.im, 0⟩
  stale : ∀ img, s.myData = some img → img.index < s.im
  input : s.input.rest = rest p file s.im

/-- in its channels; one may have been made and not added -/
structure Filling (p : Plan) (f : Faults) (file : ℕ → ℕ → ℕ → V) (s : State V) : Prop extends
    Base p f file s where
  lt : s.im < p.imgCount
  make : f.makes s.im = 0
  le : s.cCreated ≤ p.channels
  myData : s.myData = some (partialImage p file s.im s.c)
  chan : s.cCreated = s.c ∨ s.cCreated = s.c + 1 ∧ s.chan = some (channel p file s.im s.c)
  imageCreated : s.imageCreated = s.im
  made : s.makes = ⟨s.im + 1, 0⟩
  pushed : s.pushes = ⟨s.im, 0⟩
  input : s.input.rest = restOf p file s.im s.cCreated

/-- an image is to be appended -/
structure Waiting (p : Plan) (f : Faults) (file : ℕ → ℕ → ℕ → V) (s : State V) : Prop extends
    Base p f file s where
  lt : s.im < p.imgCount
  make : f.makes s.im = 0
  push : 0 < f.pushes s.im
  c : s.c = p.channels
  cCreated : s.cCreated = p.channels
  myData : s.myData = some (partialImage p file s.im p.channels)
  imageCreated : s.imageCreated = s.im + 1
  made : s.makes = ⟨s.im + 1, 0⟩
  pushed : s.pushes.made = s.im
  input : s.input.rest = rest p file (s.im + 1)

/-- an empty image is in the place of the next one -/
structure Ahead (p : Plan) (f : Faults) (file : ℕ → ℕ → ℕ → V) (s : State V) : Prop where
  all : s.all = expected p file s.im
  c : s.c = p.channels
  cCreated : s.cCreated = p.channels
  myData : s.myData = some (partialImage p file s.im 0)
  imageCreated : s.imageCreated = s.im
  pushed : s.pushes = ⟨s.im, 0⟩
  cause : s.im < p.imgCount ∧ 0 < p.channels ∧ ¬ Fits p f ∨
    s.im = p.imgCount ∧ (Fits p f ↔ 0 < f.pushes s.im)

/-- all images are there -/
structure Finished (p : Plan) (f : Faults) (file : ℕ → ℕ → ℕ → V) (s : State V) : Prop where
  im : s.im = p.imgCount
  all : s.all = expected p file s.im
  fits : Fits p f

/-- out of step -/
def Lost (p : Plan) (f : Faults) (file : ℕ → ℕ → ℕ → V) (s : State V) : Prop :=
  ¬ Fits p f ∧ (Wrong p file s ∨ Pending p file s ∨ ∃ k < p.imgCount, Missed k s)

/-- where an exception is thrown -/
def Thrown (p : Plan) (f : Faults) (file : ℕ → ℕ → ℕ → V) (s : State V) : Prop :=
  Filling p f file s ∨ Waiting p f file s ∨ Finished p f file s ∨ Lost p f file s

theorem Base.fits_of (h : Base p f file s) (him : s.im = p.imgCount) : Fits p f := by
  refine ⟨fun k hk => h.makes k (him ▸ hk), ?_, fun k hk => .inl ?_⟩
  · rcases Nat.eq_zero_or_pos p.channels with h0 | hpos
    · exact .inl h0
    · exact .inr fun k hk => (h.pushes k (by omega)).resolve_right fun hc => hpos.ne' hc.1
  · exact (h.pushes k (by omega)).resolve_right fun hc => by omega

/-- an image is appended -/
theorem Base.next (h : Base p f file s) (hlt : s.im < p.imgCount)
    (hdata : s.myData = some (partialImage p file s.im p.channels)) (hcCreated : s.cCreated = p.channels)
    (hc : s.c = p.channels) (hmake : f.makes s.im = 0)
    (hpush : f.pushes s.im = 0 ∨ p.channels = 0 ∧ s.im + 1 < p.imgCount) :
    Base p f file { s with
      im := s.im + 1, c := 0, cCreated := 0, imageCreated := s.imageCreated + 1
      pushes := s.pushes.succeed, images := s.images ++ [s.myData] } := by
  refine ⟨hlt, ?_, ?_, ?_, fun k hk => ?_, fun k hk => ?_⟩
  · show s.sent ++ (s.images ++ [s.myData]) = expected p file (s.im + 1)
    rw [← List.append_assoc, show s.sent ++ s.images = _ from h.all, hdata, expected_succ]
  · show s.chans.made = (s.im + 1) * p.channels + 0
    rw [h.chans, hcCreated, Nat.add_one_mul, Nat.add_zero]
  · show s.adds.made = (s.im + 1) * p.channels + 0
    rw [h.adds, hc, Nat.add_one_mul, Nat.add_zero]
  · rcases Nat.lt_succ_iff_lt_or_eq.mp hk with hk | rfl
    · exact h.makes k hk
    · exact hmake
  · rcases Nat.lt_succ_iff_lt_or_eq.mp hk with hk | rfl
    · exact h.pushes k hk
    · exact hpush

/-- an image is made, or cannot be made -/
theorem Fresh.make (h : Fresh p f file s) (hlt : s.im < p.imgCount) :
    Behind False (makeImage p f s) (fun t => Filling p f file t ∧ t.cCreated = t.c) (Thrown p f file) := by
  refine behind_makeImage (fun hf => ?_) fun hf => ?_
  · rw [h.made] at hf
    have hf : 0 < f.makes s.im := hf
    refine .inr (.inr (.inr ⟨fun hfits => hf.ne' (hfits.1 s.im hlt), .inr (.inr ⟨s.im, hlt, ?_⟩)⟩))
    refine ⟨fun img himg => ?_, fun img himg => (h.stale img himg).ne, le_refl _⟩
    have himg : some img ∈ s.all := himg
    rw [h.all] at himg
    exact (index_lt himg).ne
  · rw [h.made] at hf
    have hf : f.makes s.im = 0 := Nat.eq_zero_of_not_pos hf
    exact ⟨{ bound := h.bound, all := h.all, chans := h.chans, adds := h.adds, makes := h.makes
             pushes := h.pushes, lt := hlt, make := hf
             le := h.cCreated.le.trans (Nat.zero_le _)
             myData := by
              show _ = some (partialImage p file s.im s.c)
              rw [h.c]
              rfl
             chan := .inl (h.cCreated.trans h.c.symm)
             imageCreated := h.imageCreated
             made := by
              show s.makes.succeed = ⟨s.im + 1, 0⟩
              rw [h.made]
              rfl
             pushed := h.pushed
             input := by
              show s.input.rest = restOf p file s.im s.cCreated
              rw [h.cCreated, ← rest_eq hlt]
              exact h.input }, h.cCreated.trans h.c.symm⟩

/-- a channel that has been made is added -/
theorem Filling.add (h : Filling p f file s) (hc : s.cCreated = s.c + 1) :
    Behind False (addChannel f s)
      (fun t => Filling p f file { t with c := t.c + 1 } ∧ t.cCreated = t.c + 1 ∧ t.c = s.c ∧
        t.rollback = s.rollback) (Filling p f file) := by
  obtain ⟨-, hchan⟩ := h.chan.resolve_left (fun he => by omega)
  refine behind_addChannel (fun hnone => ?_) (fun _ => { h with }) fun data chan hdata hchan' => ?_
  · rcases hnone with hn | hn
    · exact nomatch hn.symm.trans h.myData
    · exact nomatch hn.symm.trans hchan
  · obtain rfl := Option.some.inj (hdata.symm.trans h.myData)
    obtain rfl := Option.some.inj (hchan'.symm.trans hchan)
    refine ⟨{ h with
      adds := congrArg Nat.succ h.adds
      myData := congrArg some (partialImage_succ s.im s.c)
      chan := .inl hc }, hc, rfl, rfl⟩

theorem Filling.redo (h : Filling p f file s) (hr : s.rollback = true) :
    Behind False (redoChannel f s >>= redoImage p f) (fun t => Filling p f file t ∧ t.cCreated = t.c)
      (Thrown p f file) := by
  have hchan : Behind False (redoChannel f s) (fun t => Filling p f file t ∧ t.cCreated = t.c)
      (Thrown p f file) := by
    rcases h.chan with hc | ⟨hc, -⟩
    · rw [redoChannel_eq hc.not_gt]
      exact ⟨h, hc⟩
    · rw [redoChannel, if_pos ⟨hr, hc ▸ Nat.lt_succ_self _⟩]
      exact Behind.bind ((h.add hc).mono (fun t ht => ⟨ht.1, ht.2.1⟩) fun t ht => .inl ht)
  refine Behind.bind (hchan.mono (fun t ht => ?_) fun _ => id)
  rw [redoImage_eq (ht.1.imageCreated.not_gt)]
  exact ht

/-- one more channel -/
theorem Filling.next (h : Filling p f file s) (hc : s.cCreated = s.c) (hlt : s.c < p.channels) :
    Behind False (makeChannel p f s) (fun t =>
      Behind False (addChannel f { t with cCreated := t.cCreated + 1 })
        (fun t => Filling p f file { t with c := t.c + 1 } ∧ t.cCreated = t.c + 1 ∧ t.c = s.c ∧
          t.rollback = s.rollback) (Filling p f file)) (Filling p f file) := by
  obtain ⟨hread, hrest⟩ := read_channel hlt (hc ▸ h.input)
  refine behind_makeChannel (fun _ => { h with }) ?_
  have hnext : Filling p f file { s with
      cCreated := s.cCreated + 1, chans := s.chans.succeed
      chan := some (readValues (p.x * p.y) s.input).1
      input := (readValues (p.x * p.y) s.input).2 } := { h with
    chans := congrArg Nat.succ h.chans
    le := hc ▸ hlt
    chan := .inr ⟨congrArg Nat.succ hc, congrArg some hread⟩
    input := by
      show _ = restOf p file s.im (s.cCreated + 1)
      rw [hc]
      exact hrest }
  exact hnext.add (congrArg Nat.succ hc)

theorem Filling.loop (h : Filling p f file s) (hc : s.cCreated = s.c) :
    Behind False (channelLoop p f (p.channels - s.c) { s with rollback := false })
      (fun t => (Filling p f file t ∧ t.cCreated = t.c ∧ t.rollback = false) ∧ t.c = p.channels)
      (Filling p f file) := by
  have hle : s.c ≤ p.channels := hc ▸ h.le
  have hloop : ∀ n (t : State V),
      (Filling p f file t ∧ t.cCreated = t.c ∧ t.rollback = false) ∧ t.c + n = p.channels →
      Behind False (channelLoop p f n t) (fun t => (Filling p f file t ∧ t.cCreated = t.c ∧
        t.rollback = false) ∧ t.c + 0 = p.channels) (Filling p f file) := behind_channelLoop
    (I := fun n t => (Filling p f file t ∧ t.cCreated = t.c ∧ t.rollback = false) ∧ t.c + n = p.channels)
    (fun n t ⟨⟨ht, htc, hr⟩, hn⟩ => (ht.next htc (by omega)).mono (fun u hu => hu.mono
      (fun v ⟨hv, hvc, hcc, hvr⟩ => ⟨⟨hv, hvc, hvr.trans hr⟩, by
        show v.c + 1 + n = p.channels
        omega⟩) fun _ => id) fun _ => id)
  exact hloop (p.channels - s.c) _ ⟨⟨{ h with }, hc, rfl⟩, Nat.add_sub_cancel' hle⟩

/-- the image has its channels -/
theorem Filling.finish (h : Filling p f file s) (hc : s.cCreated = s.c) :
    Behind False (channelLoop p f (p.channels - s.c) { s with rollback := false }) (fun s =>
      Behind False (pushImage f { s with imageCreated := s.imageCreated + 1 })
        (fun s => Fresh p f file { s with im := s.im + 1, c := 0, cCreated := 0 }) (Thrown p f file))
      (Thrown p f file) := by
  refine (h.loop hc).mono (fun t ⟨⟨ht, htc, hr⟩, hch⟩ => ?_) fun t ht => .inl ht
  have hdata : t.myData = some (partialImage p file t.im p.channels) := hch ▸ ht.myData
  have hin : t.input.rest = rest p file (t.im + 1) := by
    rw [ht.input, htc, hch, restOf_channels]
  refine behind_pushImage (fun hf => .inr (.inl ?_)) fun hf => ?_
  · have hf : t.pushes.failed < f.pushes t.pushes.made := hf
    rw [ht.pushed] at hf
    exact { ht with
      push := hf, c := hch, cCreated := htc.trans hch, myData := hdata, input := hin
      imageCreated := congrArg Nat.succ ht.imageCreated
      pushed := congrArg Attempts.made ht.pushed }
  · have hf : ¬ t.pushes.failed < f.pushes t.pushes.made := hf
    rw [ht.pushed] at hf
    exact { ht.toBase.next ht.lt hdata (htc.trans hch) hch ht.make (.inl (Nat.eq_zero_of_not_pos hf)) with
      rollback := hr, c := rfl, cCreated := rfl
      imageCreated := congrArg Nat.succ ht.imageCreated, made := ht.made
      pushed := congrArg Attempts.succeed ht.pushed
      stale := fun img himg => by
        rw [← Option.some.inj (hdata.symm.trans himg)]
        exact Nat.lt_succ_self _
      input := hin }

/-- the last image: it is all right if the next one fails -/
theorem Waiting.fits_iff (h : Waiting p f file s) (him : s.im + 1 = p.imgCount) :
    Fits p f ↔ 0 < f.makes (s.im + 1) ∨ 0 < f.pushes (s.im + 1) := by
  refine ⟨fun hfits => (hfits.2.2 s.im him).resolve_left h.push.ne', fun hnext => ⟨fun k hk => ?_, ?_, ?_⟩⟩
  · rcases Nat.lt_succ_iff_lt_or_eq.mp (show k < s.im + 1 by omega) with hk | rfl
    · exact h.makes k hk
    · exact h.make
  · rcases Nat.eq_zero_or_pos p.channels with h0 | hpos
    · exact .inl h0
    · exact .inr fun k hk => (h.pushes k (by omega)).resolve_right fun hc => hpos.ne' hc.1
  · intro k hk
    obtain rfl : k = s.im := by omega
    exact .inr hnext

/-- the image is appended, and the next one made -/
theorem Waiting.redo (h : Waiting p f file s) (hr : s.rollback = true) :
    Behind False (redoChannel f s >>= redoImage p f)
      (fun t => Filling p f file t ∧ t.cCreated = t.c ∨ Ahead p f file t) (Thrown p f file) := by
  rw [redoChannel_eq (h.cCreated.trans h.c.symm).not_gt]
  show Behind _ (redoImage p f s) _ _
  rw [redoImage, if_pos ⟨hr, h.imageCreated ▸ Nat.lt_succ_self _⟩]
  refine Behind.bind (behind_pushImage
    (fun _ => .inr (.inl { h with pushed := h.pushed })) fun _ => ?_)
  have hall : s.sent ++ (s.images ++ [s.myData]) = expected p file (s.im + 1) := by
    rw [← List.append_assoc, show s.sent ++ s.images = _ from h.all, h.myData, expected_succ]
  have hpushed : s.pushes.succeed = ⟨s.im + 1, 0⟩ := congrArg (fun k => Attempts.mk (k + 1) 0) h.pushed
  refine behind_makeImage (fun hf => ?_) fun hf => ?_
  · have hf : s.makes.failed < f.makes s.makes.made := hf
    rw [h.made] at hf
    refine .inr (.inr ?_)
    rcases Nat.lt_or_eq_of_le (show s.im + 1 ≤ p.imgCount from h.lt) with hlt | heq
    · refine .inr ⟨fun hfits => hf.ne' (hfits.1 _ hlt), .inr (.inr ⟨s.im + 1, hlt, ?_⟩)⟩
      refine ⟨fun img himg => ?_, fun img himg => ?_, le_refl _⟩
      · have himg : some img ∈ s.sent ++ (s.images ++ [s.myData]) := himg
        rw [hall] at himg
        exact (index_lt himg).ne
      · rw [← Option.some.inj (h.myData.symm.trans himg)]
        exact (Nat.lt_succ_self _).ne
    · exact .inl ⟨heq, hall, (h.fits_iff heq).mpr (.inl hf)⟩
  · have hf : ¬ s.makes.failed < f.makes s.makes.made := hf
    rw [h.made] at hf
    have hmake : f.makes (s.im + 1) = 0 := Nat.eq_zero_of_not_pos hf
    have hmade : s.makes.succeed = ⟨s.im + 1 + 1, 0⟩ := congrArg Attempts.succeed h.made
    by_cases hch : p.channels = 0 ∧ s.im + 1 < p.imgCount
    · obtain ⟨h0, hlt⟩ := hch
      have hbase := h.toBase.next h.lt h.myData h.cCreated h.c h.make (.inr ⟨h0, hlt⟩)
      have hc : s.c = 0 := h.c.trans h0
      have hcCreated : s.cCreated = 0 := h.cCreated.trans h0
      refine .inl ⟨{ bound := hlt.le, all := hbase.all, makes := hbase.makes, pushes := hbase.pushes
                     chans := ?_, adds := ?_, lt := hlt, make := hmake
                     le := h.cCreated.le, myData := ?_, chan := .inl (hcCreated.trans hc.symm)
                     imageCreated := h.imageCreated, made := hmade, pushed := hpushed
                     input := ?_ }, hcCreated.trans hc.symm⟩
      · show s.chans.made = (s.im + 1) * p.channels + s.cCreated
        rw [hcCreated]
        exact hbase.chans
      · show s.adds.made = (s.im + 1) * p.channels + s.c
        rw [hc]
        exact hbase.adds
      · show _ = some (partialImage p file (s.im + 1) s.c)
        rw [hc]
        rfl
      · show s.input.rest = restOf p file (s.im + 1) s.cCreated
        rw [hcCreated, ← rest_eq hlt]
        exact h.input
    · refine .inr ⟨hall, h.c, h.cCreated, rfl, h.imageCreated, hpushed, ?_⟩
      rcases Nat.lt_or_eq_of_le (show s.im + 1 ≤ p.imgCount from h.lt) with hlt | heq
      · refine .inl ⟨hlt, Nat.pos_of_ne_zero fun h0 => hch ⟨h0, hlt⟩, fun hfits => ?_⟩
        have hzero := hfits.2.1.resolve_left (fun h0 => hch ⟨h0, hlt⟩) s.im hlt
        exact h.push.ne' hzero
      · refine .inr ⟨heq, (h.fits_iff heq).trans ?_⟩
        rw [hmake]
        exact or_iff_right (lt_irrefl 0)

/-- the empty image is appended -/
theorem Ahead.finish (h : Ahead p f file s) :
    Behind False (channelLoop p f (p.channels - s.c) { s with rollback := false }) (fun s =>
      Behind False (pushImage f { s with imageCreated := s.imageCreated + 1 })
        (fun s => ¬ Fits p f ∧ Wrong p file { s with im := s.im + 1, c := 0, cCreated := 0 })
        (Thrown p f file)) (Thrown p f file) := by
  rw [show p.channels - s.c = 0 by rw [h.c, Nat.sub_self]]
  show Behind False (pushImage f { s with rollback := false, imageCreated := s.imageCreated + 1 }) _ _
  refine behind_pushImage (fun hf => .inr (.inr ?_)) fun hf => ?_
  · have hf : s.pushes.failed < f.pushes s.pushes.made := hf
    rw [h.pushed] at hf
    rcases h.cause with ⟨hlt, hpos, hfits⟩ | ⟨him, hiff⟩
    · exact .inr ⟨hfits, .inr (.inl ⟨hlt, hpos, h.all, h.myData, h.cCreated.trans h.c.symm,
        congrArg Nat.succ h.imageCreated⟩)⟩
    · exact .inl ⟨him, h.all, hiff.mpr hf⟩
  · have hf : ¬ s.pushes.failed < f.pushes s.pushes.made := hf
    rw [h.pushed] at hf
    rcases h.cause with ⟨hlt, hpos, hfits⟩ | ⟨him, hiff⟩
    · exact ⟨hfits, wrong_of_push h.all h.myData (.inl hpos) s.pushes.succeed⟩
    · exact ⟨fun hfits => hf (hiff.mp hfits),
        wrong_of_push h.all h.myData (.inr him) s.pushes.succeed⟩

/-- what holds before a turn -/
def InStep (p : Plan) (f : Faults) (file : ℕ → ℕ → ℕ → V) (s : State V) : Prop :=
  Fresh p f file s ∨ s.rollback = true ∧ (Filling p f file s ∨ Waiting p f file s)

theorem InStep.round (h : InStep p f file s) (hlt : s.im < p.imgCount) :
    Behind False (round p f s) (fun t => Fresh p f file t ∨ ¬ Fits p f ∧ Wrong p file t)
      (Thrown p f file) := by
  have hresume : Behind False (resume p f s)
      (fun t => Filling p f file t ∧ t.cCreated = t.c ∨ Ahead p f file t) (Thrown p f file) := by
    rcases h with h | ⟨hr, h⟩
    · refine behind_resume (fun hr => (h.make hlt).mono (fun t ⟨ht, htc⟩ => ?_) fun _ => id)
        fun hr => absurd (h.rollback.symm.trans hr) Bool.false_ne_true
      rw [redoChannel_eq htc.not_gt]
      show Behind _ (redoImage p f t) _ _
      rw [redoImage_eq ht.imageCreated.not_gt]
      exact .inl ⟨ht, htc⟩
    · refine behind_resume (fun hr' => absurd (hr'.symm.trans hr) Bool.false_ne_true) fun _ => ?_
      rcases h with h | h
      · exact (h.redo hr).mono (fun t ht => .inl ht) fun _ => id
      · exact h.redo hr
  refine behind_round (hresume.mono (fun t ht => ?_) fun _ => id)
  rcases ht with ⟨ht, htc⟩ | ht
  · exact (ht.finish htc).mono (fun u hu => hu.mono (fun v hv => .inl hv) fun _ => id) fun _ => id
  · exact ht.finish.mono (fun u hu => hu.mono (fun v hv => .inr hv) fun _ => id) fun _ => id

/-- what holds before a turn, when the run is out of step -/
def Gone (p : Plan) (file : ℕ → ℕ → ℕ → V) (s : State V) : Prop :=
  Wrong p file s ∨ (Pending p file s ∧ s.rollback = true) ∨ ∃ k < p.imgCount, Missing k s

theorem Gone.step {t : State V} (h : Gone p file s) (ht : step p f s = some t) : Gone p file t := by
  rcases h with h | ⟨h, hr⟩ | ⟨k, hk, h⟩
  · exact .inl (h.step ht)
  · rcases h.step hr ht with h | h
    · exact .inr (.inl h)
    · exact .inl h
  · exact .inr (.inr ⟨k, hk, h.step ht⟩)

/-- a turn of the loop -/
theorem InStep.step {t : State V} (h : InStep p f file s) (hlt : s.im < p.imgCount)
    (ht : step p f s = some t) :
    InStep p f file t ∨ Finished p f file t ∨ ¬ Fits p f ∧ Gone p file t := by
  rcases step_cases (h.round hlt) ht with (h | ⟨hfits, h⟩) | ⟨u, hu, rfl⟩
  · exact .inl (.inl h)
  · exact .inr (.inr ⟨hfits, .inl h⟩)
  · have hall (k : ℕ) (h : u.all = expected p file k) : u.dispatch.all = expected p file k :=
      (dispatch_all u).trans h
    rcases hu with hu | hu | hu | ⟨hfits, hu | hu | ⟨k, hk, hu⟩⟩
    · exact .inl (.inr ⟨rfl, .inl { hu with all := hall _ hu.all }⟩)
    · exact .inl (.inr ⟨rfl, .inr { hu with all := hall _ hu.all }⟩)
    · exact .inr (.inl { hu with all := hall _ hu.all })
    · exact .inr (.inr ⟨hfits, .inl fun hsub => hu (dispatch_all u ▸ hsub)⟩)
    · exact .inr (.inr ⟨hfits, .inr (.inl ⟨{ hu with all := hall _ hu.all }, rfl⟩)⟩)
    · refine .inr (.inr ⟨hfits, .inr (.inr ⟨k, hk, ⟨fun img himg => ?_, hu.myData, hu.le⟩, .inl rfl⟩)⟩)
      exact hu.all img (dispatch_all u ▸ himg)

theorem fresh_start (file : ℕ → ℕ → ℕ → V) (val : V) : Fresh p f file (start p file val) :=
  { bound := Nat.zero_le _, all := rfl, chans := (Nat.zero_mul _).symm, adds := (Nat.zero_mul _).symm
    makes := fun _ hk => (nomatch hk), pushes := fun _ hk => (nomatch hk)
    rollback := rfl, c := rfl, cCreated := rfl, imageCreated := rfl, made := rfl, pushed := rfl
    stale := fun _ himg => (nomatch himg), input := rfl }

theorem fits_of_loads [Inhabited V] (h : Loads p f V) : Fits p f := by
  obtain ⟨file⟩ : Nonempty (ℕ → ℕ → ℕ → V) := ⟨fun _ _ _ => default⟩
  obtain ⟨s, hsteps, hdone, hperm⟩ := h file default
  have hs : InStep p f file s ∨ Finished p f file s ∨ ¬ Fits p f ∧ Gone p file s :=
    hsteps.inv (P := fun s => InStep p f file s ∨ Finished p f file s ∨ ¬ Fits p f ∧ Gone p file s)
      (.inl (.inl (fresh_start file default))) fun s t hs ht => by
      have hlt : s.im < p.imgCount := by
        by_contra hn
        rw [step, if_neg hn] at ht
        cases ht
      rcases hs with hs | hs | ⟨hfits, hs⟩
      · exact hs.step hlt ht
      · exact absurd hs.im hlt.ne
      · exact .inr (.inr ⟨hfits, hs.step ht⟩)
  rcases hs with (hs | ⟨-, hs | hs⟩) | hs | ⟨-, hs | ⟨hs, -⟩ | ⟨k, hk, hs, -⟩⟩
  · exact hs.fits_of (le_antisymm hs.bound (Nat.not_lt.mp hdone))
  · exact absurd hs.lt hdone
  · exact absurd hs.lt hdone
  · exact hs.fits
  · exact absurd hperm.subperm hs
  · exact absurd hs.lt hdone
  · have hmem : some (partialImage p file k p.channels) ∈ s.all := hperm.mem_iff.mpr ?_
    · exact absurd rfl (hs.all _ hmem)
    · exact List.mem_map.mpr ⟨k, List.mem_range.mpr hk, rfl⟩

end

/-! ## Each turn goes on -/

section
variable {file : ℕ → ℕ → ℕ → V}

/-- operations that were successful -/
def State.made (s : State V) : ℕ := s.makes.made + s.chans.made + s.adds.made + s.pushes.made

/-- failures to come before the next successes -/
def State.left (f : Faults) (s : State V) : ℕ :=
  s.makes.left f.makes + s.chans.left f.chans + s.adds.left f.adds + s.pushes.left f.pushes

/-- more operations were successful, or none -/
def Later (f : Faults) (s t : State V) : Prop :=
  s.made < t.made ∨ t.made = s.made ∧ t.left f = s.left f

/-- and one has failed -/
def LaterFailed (f : Faults) (s t : State V) : Prop :=
  s.made < t.made ∨ t.made = s.made ∧ t.left f < s.left f

theorem Later.fail {t u : State V} (h : Later f s t) (hmade : u.made = t.made)
    (hleft : u.left f < t.left f) : LaterFailed f s u := by
  rcases h with h | ⟨h, hl⟩
  · exact .inl (hmade ▸ h)
  · exact .inr ⟨hmade.trans h, hl ▸ hleft⟩

theorem Later.lt {t u : State V} (h : Later f s t) (hmade : u.made = t.made + 1) : s.made < u.made := by
  rcases h with h | ⟨h, -⟩ <;> omega

theorem later_kept (s : State V) : Kept p f (Later f s) (LaterFailed f s) :=
  { counters := fun _ _ _ _ _ h => h
    makeChannel := fun t h => behind_makeChannel
      (fun hf => h.fail rfl (by
        have := Attempts.left_fail hf
        simp only [State.left]
        omega))
      (.inl (h.lt (by
        simp only [State.made, Attempts.succeed]
        omega)))
    addChannel := fun t h => behind_addChannel (fun _ => trivial)
      (fun hf => h.fail rfl (by
        have := Attempts.left_fail hf
        simp only [State.left]
        omega))
      fun _ _ _ _ => .inl (h.lt (by
        simp only [State.made, Attempts.succeed]
        omega))
    pushImage := fun t h => behind_pushImage
      (fun hf => h.fail rfl (by
        have := Attempts.left_fail hf
        simp only [State.left]
        omega))
      fun _ => .inl (h.lt rfl)
    makeImage := fun t h => behind_makeImage
      (fun hf => h.fail rfl (by
        have := Attempts.left_fail (show t.makes.Fails f.makes from hf)
        simp only [State.left]
        omega))
      fun _ => .inl (h.lt (by
        simp only [State.made, Attempts.succeed]
        omega)) }

theorem round_later (s : State V) :
    Behind True (round p f s) (fun t => s.made < t.made) (LaterFailed f s) := by
  have hs : Later f s s := .inr ⟨rfl, rfl⟩
  refine (later_kept s).round hs (fun _ => ?_) fun t ht => ?_
  · refine behind_makeImage (fun hf => hs.fail rfl ?_) fun _ => .inl (hs.lt ?_)
    · have := Attempts.left_fail hf
      simp only [State.left]
      omega
    · simp only [State.made, Attempts.succeed]
      omega
  · refine behind_pushImage (fun hf => ht.fail rfl ?_) fun _ => ht.lt rfl
    have := Attempts.left_fail hf
    simp only [State.left]
    omega

/-- as many as there are for all images, and for one more -/
def bound (p : Plan) : ℕ := 2 * (p.imgCount * p.channels) + 2 * p.imgCount + 2

theorem InStep.made_lt (h : InStep p f file s) (hlt : s.im < p.imgCount) : s.made < bound p := by
  have hmul : s.im * p.channels + p.channels ≤ p.imgCount * p.channels := by
    rw [← Nat.add_one_mul]
    exact Nat.mul_le_mul_right _ hlt
  have hchans : ∀ c cCreated, Base p f file s → s.c = c → s.cCreated = cCreated → c ≤ p.channels →
      cCreated ≤ p.channels → s.chans.made ≤ p.imgCount * p.channels ∧
        s.adds.made ≤ p.imgCount * p.channels := by
    intro c cCreated hb hc hcCreated hle hle'
    have h1 := hb.chans
    have h2 := hb.adds
    omega
  unfold State.made bound
  rcases h with h | ⟨-, h | h⟩
  · obtain ⟨h1, h2⟩ := hchans 0 0 h.toBase h.c h.cCreated (Nat.zero_le _) (Nat.zero_le _)
    have hmakes : s.makes.made = s.im := congrArg Attempts.made h.made
    have hpushes : s.pushes.made = s.im := congrArg Attempts.made h.pushed
    omega
  · have hle : s.c ≤ p.channels := by
      have := h.le
      rcases h.chan with hc | ⟨hc, -⟩ <;> omega
    obtain ⟨h1, h2⟩ := hchans s.c s.cCreated h.toBase rfl rfl hle h.le
    have hmakes : s.makes.made = s.im + 1 := congrArg Attempts.made h.made
    have hpushes : s.pushes.made = s.im := congrArg Attempts.made h.pushed
    omega
  · obtain ⟨h1, h2⟩ := hchans _ _ h.toBase h.c h.cCreated (le_refl _) (le_refl _)
    have hmakes : s.makes.made = s.im + 1 := congrArg Attempts.made h.made
    have hpushes : s.pushes.made = s.im := h.pushed
    omega

/-- no null handle is followed -/
theorem InStep.step_some (h : InStep p f file s) (hlt : s.im < p.imgCount) :
    ∃ t, LoadImages.step p f s = some t := by
  have hround := h.round hlt
  unfold LoadImages.step
  rw [if_pos hlt]
  match LoadImages.round p f s, hround with
  | .ok t, _ => exact ⟨t, rfl⟩
  | .error (some t), _ => exact ⟨t.dispatch, rfl⟩

/-- more operations were successful, or fewer failures are left -/
theorem InStep.decreases {t : State V} (h : InStep p f file s) (hlt : s.im < p.imgCount)
    (ht : LoadImages.step p f s = some t) :
    Prod.Lex (· < ·) (· < ·) (bound p - t.made, t.left f) (bound p - s.made, s.left f) := by
  have hbound := h.made_lt hlt
  rcases step_cases (round_later s) ht with hmade | ⟨u, hmade | ⟨hmade, hleft⟩, rfl⟩
  · exact .left _ _ (by omega)
  · refine .left _ _ ?_
    show bound p - u.made < _
    omega
  · show Prod.Lex _ _ (bound p - u.made, u.left f) _
    rw [hmade]
    exact .right _ hleft

theorem loads_of_fits (h : Fits p f) : Loads p f V := by
  intro file val
  have hwf : WellFounded (Prod.Lex (· < ·) (· < ·) : ℕ × ℕ → ℕ × ℕ → Prop) :=
    WellFounded.prod_lex Nat.lt_wfRel.wf Nat.lt_wfRel.wf
  obtain ⟨s, hsteps, hdone, hs⟩ := Steps.exists_done hwf (fun s => (bound p - s.made, s.left f))
    (fun s => InStep p f file s ∨ Finished p f file s) (fun s => ¬ s.im < p.imgCount) (fun s hs hd => by
      have hlt := not_not.mp hd
      have hs := hs.resolve_right fun hf => hf.im.not_lt hlt
      obtain ⟨t, ht⟩ := hs.step_some hlt
      refine ⟨t, ht, ?_, hs.decreases hlt ht⟩
      rcases hs.step hlt ht with ht | ht | ⟨hfits, -⟩
      · exact .inl ht
      · exact .inr ht
      · exact absurd h hfits) (.inl (.inl (fresh_start file val)))
  refine ⟨s, hsteps, hdone, ?_⟩
  rcases hs with (hs | ⟨-, hs | hs⟩) | hs
  · have hall := hs.all
    rw [le_antisymm hs.bound (Nat.not_lt.mp hdone)] at hall
    exact .of_eq hall
  · exact absurd hs.lt hdone
  · exact absurd hs.lt hdone
  · have hall := hs.all
    rw [hs.im] at hall
    exact .of_eq hall

theorem loads_iff_fits [Inhabited V] : Loads p f V ↔ Fits p f := ⟨fits_of_loads, loads_of_fits⟩

end

/-! ## Both loaders -/

/-- the loader of a matrix, and the loader of images -/
theorem loaders_iff {V : Type} [AddGroupWithOne V] [CharZero V] (q : LABlocks.Plan)
    (split : V → List (LABlocks.Token V) → ℤ × List (LABlocks.Token V)) (makeFaults appendFaults : ℕ → ℕ)
    (p : Plan) (f : Faults) :
    (LABlocks.Loads q V split makeFaults appendFaults ↔ LABlocks.Fits q appendFaults) ∧
      (Loads p f V ↔ Fits p f) :=
  have : Inhabited V := ⟨0⟩
  ⟨LABlocks.loads_iff_fits, loads_iff_fits⟩

/-- a first block and a first image that are not appended at once -/
theorem loaders_iff_first :
    (LABlocks.Loads ⟨1, 1, 1, 2, 2⟩ ℤ (fun v rest => (v, rest)) (fun _ => 0) (fun k => if k = 0 then 1 else 0) ↔
        LABlocks.Fits ⟨1, 1, 1, 2, 2⟩ fun k => if k = 0 then 1 else 0) ∧
      (Loads ⟨2, 1, 1, 1⟩ ⟨fun _ => 0, fun _ => 0, fun _ => 0, fun k => if k = 0 then 1 else 0⟩ ℤ ↔
        Fits ⟨2, 1, 1, 1⟩ ⟨fun _ => 0, fun _ => 0, fun _ => 0, fun k => if k = 0 then 1 else 0⟩) :=
  loaders_iff _ _ _ _ _ _

/-- then a block is not sent, and an image -/
theorem loaders_not_always :
    ¬ LABlocks.Loads ⟨1, 1, 1, 2, 2⟩ ℤ (fun v rest => (v, rest)) (fun _ => 0) (fun k => if k = 0 then 1 else 0) ∧
      ¬ Loads ⟨2, 1, 1, 1⟩ ⟨fun _ => 0, fun _ => 0, fun _ => 0, fun k => if k = 0 then 1 else 0⟩ ℤ := by
  refine ⟨fun h => ?_, fun h => ?_⟩
  · rcases LABlocks.loads_iff_fits.mp h with h | h
    · exact absurd h (by decide)
    · exact absurd (h 0 (by decide)) (by decide)
  · rcases (loads_iff_fits.mp h).2.1 with h | h
    · exact absurd h (by decide)
    · exact absurd (h 0 (by decide)) (by decide)

end
end Netsdb.LoadImages
