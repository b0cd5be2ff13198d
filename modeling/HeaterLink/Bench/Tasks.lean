import HeaterLink.Bench.World

/-!
# Tasks of the bench

One step of each kind of task: a call together with the radio call it waits
for, a listener, a delivery in the background, and a watcher of a link state.
A step is absent while the task has to wait. What a radio call has finished
is looked at before the alarm that limits it.
-/

set_option autoImplicit false

namespace HeaterLink.Bench

inductive Delivered
  | moved (world : World) (delivery : Delivery)
  | refused (world : World) (delivery : Delivery)
  | pause (ms : Nat) (rest : List Item)
  | full
  | finished

namespace World

/-! Radio calls -/

def setPlay (w : World) (c : CallId) (r : RadioRequest) (p : Progress) : World :=
  { w with plays := w.plays.insert c ⟨r, p⟩ }

def playOut (w : World) (c : CallId) (r : RadioRequest) : Behaviour → World
  | .hang => w.setPlay c r .hanging
  | .finish delay fault => w.setPlay c r (.pausing (w.moment.pause delay) fault)

def addressOf (w : World) (h : Handle) : String := ((w.radio.get? h).map (·.address)).getD ""

def find (w : World) (d : DeviceId) (c : CallId) (address : String) : World :=
  let (hit, rest) := (w.script address).nextFind
  let w := w.setScript address rest
  if hit then
    let h := w.nextHandle
    let w := { w with nextHandle := h + 1, radio := w.radio.insert h ⟨address, d, none⟩ }
    (w.write (.found address h)).setPlay c (.find address) (.over (.found (some h)))
  else (w.write (.missed address)).setPlay c (.find address) (.over (.found none))

def startRadio (w : World) (d : DeviceId) (c : CallId) (r : RadioRequest) : World :=
  match r with
  | .find address => w.find d c address
  | .connect h limit =>
    let (b, rest) := (w.script (w.addressOf h)).nextConnect
    ((w.setScript (w.addressOf h) rest).write (.connect h limit)).playOut c r b
  | .subscribe h _ =>
    let (b, rest) := (w.script (w.addressOf h)).nextSubscribe
    ((w.setScript (w.addressOf h) rest).write (.subscribe h)).playOut c r b
  | .write h frame =>
    let (b, rest) := (w.script (w.addressOf h)).nextWrite
    ((w.setScript (w.addressOf h) rest).write (.write h frame)).playOut c r b
  | .disconnect h =>
    let (b, rest) := (w.script (w.addressOf h)).nextDisconnect
    (((w.setScript (w.addressOf h) rest).write (.disconnect h)).dropSender h).playOut c r b

def abandon (w : World) (d : DeviceId) (c : CallId) : World :=
  let left := { w with plays := w.plays.erase c }
  match w.plays.get? c with
  | some ⟨_, .delivering ⟨_, _, some i⟩⟩ => left.leaveLine d i (.call d c)
  | _ => left

/-! Effects -/

def noteResult (w : World) (t : Task) (r : Result) : World :=
  match w.labels.get? t with
  | some name => { w with
      labels := w.labels.erase t
      finished := w.finished ++ [(w.now, name, r)] }
  | none => { w with results := w.results.insert t r }

def watchersOf (w : World) (d : DeviceId) : List Task :=
  (w.watchers.filter fun (_, v) => v.device = d).map fun (n, _) => .watcher n

/-- A call looks at its request only once its frame is written, so news of the
request wakes it only then. -/
def wakeAwaiting (w : World) (d : DeviceId) (c : CallId) : World :=
  match (w.session? d).bind fun s => s.calls.get? c with
  | some ⟨_, .awaiting _ _, _⟩ => w.wake (.call d c)
  | _ => w

def absorb (d : DeviceId) (w : World) : Effect → World
  | .began _ _ => w
  | .requested c r => w.startRadio d c r
  | .abandoned c => w.abandon d c
  | .granted c => w.wake (.call d c)
  | .entered _ => w.wakeAll (w.watchersOf d)
  | .emitted e => { w with devices := w.devices.modify d fun v => { v with events := v.events.send e } }
  | .registered _ _ => w
  | .displaced c _ => w.wakeAwaiting d c
  | .answered c _ => w.wakeAwaiting d c
  | .started i => w.wake (.listener d i)
  | .cancelled i => w.wake (.listener d i)
  | .took i _ =>
    match (w.line d i)[(w.room? d i).getD 0 - 1]? with
    | some t => w.wake t
    | none => w
  | .cleared => w
  | .ended i => w.wakeAll (w.line d i)
  | .settled _ _ => w
  | .finished _ _ => w
  | .returned c o => w.noteResult (.call d c) (.outcome o)

def absorbAll (w : World) (d : DeviceId) (s : Session) (effects : List Effect) : World :=
  effects.foldl (absorb d) (w.onSession d fun _ => s)

/-! Deliveries -/

/-- A fragment goes to a stream if there is room behind the tasks that were first. -/
def push (w : World) (t : Task) (l : Delivery) (d : DeviceId) (i : StreamId) (data : Bytes)
    (rest : List Item) : Delivered :=
  let line := w.line d i
  match w.room? d i with
  | none => .refused (w.leaveLine d i t) ⟨l.handle, rest, none⟩
  | some room =>
    if line.idxOf t < room then
      .moved (((w.onSession d (·.deliver i data)).wake (.listener d i)).leaveLine d i t)
        ⟨l.handle, rest, none⟩
    else if l.stuck.isSome then .full
    else .moved (w.setLine d i (line ++ [t])) { l with stuck := some i }

def deliverNext (w : World) (t : Task) (l : Delivery) : Delivered :=
  match l.items with
  | [] => .finished
  | .wait ms :: rest => .pause ms rest
  | .dropLink :: rest => .moved ((w.loseLink l.handle).dropSender l.handle) { l with items := rest }
  | .loseLink :: rest => .moved (w.loseLink l.handle) { l with items := rest }
  | .endStream :: rest => .moved (w.dropSender l.handle) { l with items := rest }
  | .fragment data :: rest =>
    match w.radio.get? l.handle with
    | none => .moved w { l with items := rest }
    | some r =>
      match l.stuck, r.sender with
      | some i, _ => w.push t l r.device i data rest
      | none, some i => w.push t l r.device i data rest
      | none, none => .moved w { l with items := rest }

def sendCourier (w : World) (h : Handle) (items : List Item) : World :=
  let n := w.nextNumber
  { w with
    nextNumber := n + 1
    couriers := w.couriers.insert n ⟨⟨h, items, none⟩, none⟩ }.wake (.courier n)

/-! Steps of tasks -/

def answerCall (w : World) (d : DeviceId) (c : CallId) (a : RadioAnswer) : World :=
  { w with plays := w.plays.erase c }.onSession d (·.answer c a)

/-- A radio call that went well has its consequence. A written frame takes the
next reply, which is delivered before the write returns up to its first pause. -/
def succeed (w : World) (d : DeviceId) (c : CallId) (r : RadioRequest) : World :=
  match r with
  | .subscribe h i =>
    let w := w.dropSender h
    { w with radio := w.radio.modify h ({ · with sender := some i }) }.answerCall d c (.finished none)
  | .write h _ =>
    let (items, rest) := (w.script (w.addressOf h)).nextReply
    (w.setScript (w.addressOf h) rest).setPlay c r (.delivering ⟨h, items, none⟩)
  | _ => w.answerCall d c (.finished none)

def playStep (w : World) (d : DeviceId) (c : CallId) (p : Play) : Option World :=
  match p.progress with
  | .hanging => none
  | .over a => some (w.answerCall d c a)
  | .pausing alarm fault =>
    if alarm.rings w.now then
      match fault with
      | some f => some (w.answerCall d c (.finished (some f)))
      | none => some (w.succeed d c p.request)
    else none
  | .delivering l =>
    match w.deliverNext (.call d c) l with
    | .moved w l => some (w.setPlay c p.request (.delivering l))
    | .refused w _ => some (w.answerCall d c (.finished (some .linkLost)))
    | .pause ms rest =>
      some ((w.sendCourier l.handle (.wait ms :: rest)).answerCall d c (.finished none))
    | .full => none
    | .finished => some (w.answerCall d c (.finished none))

def pollStep (w : World) (d : DeviceId) (c : CallId) : Option World :=
  ((w.session? d).bind fun s => s.poll w.moment c).map fun (s, effects) => w.absorbAll d s effects

def callStep (w : World) (d : DeviceId) (c : CallId) : Option World :=
  match w.plays.get? c with
  | none => w.pollStep d c
  | some p =>
    match w.playStep d c p with
    | some after => some after
    | none => w.pollStep d c

def listenerStep (w : World) (d : DeviceId) (i : StreamId) : Option World :=
  ((w.session? d).bind fun s => s.listen i).map fun (s, effects) => w.absorbAll d s effects

def setCourier (w : World) (n : Nat) (v : Courier) : World :=
  { w with couriers := w.couriers.insert n v }

def courierStep (w : World) (n : Nat) : Option World :=
  match w.couriers.get? n with
  | none => none
  | some v =>
    match w.deliverNext (.courier n) v.delivery with
    | .moved w l => some (w.setCourier n ⟨l, none⟩)
    | .refused w l => some (w.setCourier n ⟨l, none⟩)
    | .full => none
    | .finished =>
      some ({ w with couriers := w.couriers.erase n }.noteResult (.courier n) .delivered)
    | .pause ms rest =>
      match v.alarm with
      | none => some (w.setCourier n { v with alarm := some (w.moment.pause ms) })
      | some alarm =>
        if alarm.rings w.now then
          some (w.setCourier n ⟨{ v.delivery with items := rest }, none⟩)
        else none

def watcherStep (w : World) (n : Nat) : Option World :=
  match w.watchers.get? n with
  | none => none
  | some v =>
    let ended (b : Bool) :=
      { w with watchers := w.watchers.erase n }.noteResult (.watcher n) (.became b)
    if (w.session? v.device).any fun s => s.state = v.wanted then some (ended true)
    else if v.alarm.rings w.now then some (ended false)
    else none

def step (w : World) (t : Task) : Option World :=
  let w := { w with turn := w.turn + 1 }
  match t with
  | .call d c => w.callStep d c
  | .listener d i => w.listenerStep d i
  | .courier n => w.courierStep n
  | .watcher n => w.watcherStep n

end World

end HeaterLink.Bench
