import Mathlib
import StitchEditor.Lib.Reopening
import StitchEditor.Store.ExactlyOnce
import StitchEditor.Store.Survival

/-!
# StitchEditor.Store.Calls

`ProjectStore`: the calls of its clients on their own threads, the channel to
the worker, and `shutdown`.

A call sends its message into the bounded channel and waits for the response;
`shutdown` borrows the store exclusively, so that no call is under way.  A
store behind its channel does what its worker does message by message
(`calls_linearize`), what it has granted is in the file (`granted_calls_last`),
every call returns (`calls_return`), and after a shutdown there is nothing but
`WorkerStopped` (`shutdown_is_final`).
-/

namespace StitchEditor

open Fallible Ledger Procedure Run

section Calls

variable [Sha256]

/-! ## the worker -/

/-- A message with a response. -/
abbrev Request := { work : Work // work ≠ .shutdown }

/-- The worker responds, and is ready for the next message.  Its client is
waiting, so that the response arrives. -/
structure World.ServesIn (env : Env) (world : World) (request : Request) (reply : Reply)
    (world' : World) : Prop where
  arrives : env.verdict .respond = .completes
  handles : handle request.1 env { world with reply := none } = (.ok true, world')
  replies : world'.reply = some reply

def World.Serves (world : World) (request : Request) (reply : Reply) (world' : World) : Prop :=
  ∃ env, World.ServesIn env world request reply world'

/-- The process dies while the worker is at the message. -/
def World.DiesOver (world : World) (request : Request) (reply : Option Reply)
    (rest : Database × Files) : Prop :=
  ∃ env world', env.verdict .respond ≠ .fails ∧
    handle request.1 env { world with reply := none } = (.error .crash, world') ∧
    world'.reply = reply ∧ rest = (world'.state.connection, world'.files)

/-- `ProjectStore::open`, from what the last process left behind. -/
def World.Opens (rest : Database × Files) (world : World) : Prop :=
  ∃ path env state, openState path rest.1 env = .ok state ∧
    world = ⟨state, { rest.2 with temporaries := 0 }, none⟩

def projectStore : Desk.Service World (Database × Files) Request Reply where
  serve := World.Serves
  dies := World.DiesOver
  leaves world := (world.state.connection, world.files)
  opens := World.Opens

/-- **Every message is answered** as long as the process lives, whatever fails. -/
theorem World.exists_servesIn {env : Env} (halive : env.Alive)
    (harrives : env.verdict .respond = .completes) (world : World) (request : Request) :
    ∃ reply world', World.ServesIn env world request reply world' := by
  obtain ⟨reply, world', hhandle, hreply⟩ :=
    handle_responds halive harrives request.2 { world with reply := none }
  exact ⟨reply, world', harrives, hhandle, hreply⟩

theorem World.exists_serves (world : World) (request : Request) :
    ∃ reply world', world.Serves request reply world' := by
  have halive : Env.faultless.Alive := fun _ => by simp [Env.faultless]
  obtain ⟨reply, world', hserves⟩ := World.exists_servesIn halive rfl world request
  exact ⟨reply, world', .faultless, hserves⟩

/-! ## the system of messages -/

/-- The answer that a client is given. -/
def Label.told? : Label → Option (Nat × Work × Reply)
  | .serve client work _ (some reply) _ => some (client, work, reply)
  | _ => none

/-- The answer, with the message that it is to. -/
def tellOf (answered : Nat × Request × Reply) : Nat × Work × Reply :=
  (answered.1, answered.2.1.1, answered.2.2)

/-- The worker, with an empty queue. -/
def systemOf : Desk.Plain World (Database × Files) → System
  | .up world => ⟨.running world, []⟩
  | .down rest => ⟨.down rest.1 rest.2, []⟩

variable {plain plain' : Desk.Plain World (Database × Files)}

/-- A message enters the queue, and is served. -/
theorem runs_serve {world : World} (client : Nat) {work : Work} {env : Env} {node : Node}
    (hstep : (Node.running world).Step (.message work env) node) (hkeep : node.keep [] = []) :
    ∃ labels', Runs System.Step ⟨.running world, []⟩ labels' ⟨node, []⟩ ∧
      labels'.filterMap Label.told? =
        ((handle work env { world with reply := none }).2.reply.map fun reply =>
          (client, work, reply)).toList := by
  have hsubmit : System.Step ⟨.running world, []⟩ (.submit client work)
      ⟨.running world, [(client, work)]⟩ := .submit (by decide)
  have hserve : System.Step ⟨.running world, [(client, work)]⟩ _ ⟨node, node.keep []⟩ :=
    .serve hstep
  rw [hkeep] at hserve
  refine ⟨_, .snoc (.snoc .nil hsubmit) hserve, ?_⟩
  cases (handle work env { world with reply := none }).2.reply <;> rfl

/-- **One step** of the worker is one of the system, or two. -/
theorem system_step {label : Desk.Plain.Label Nat Request Reply}
    (hstep : Desk.Plain.Step projectStore plain label plain') :
    ∃ labels', Runs System.Step (systemOf plain) labels' (systemOf plain') ∧
      labels'.filterMap Label.told? = (label.served?.map tellOf).toList := by
  cases hstep with
  | @serve world world' client request reply hserve =>
      obtain ⟨env, -, hhandle, hreply⟩ := hserve
      have hstep : (Node.running world).Step (.message request.1 env) (.running world') := by
        simp only [Node.Step, Node.step, hhandle]
      obtain ⟨labels', hrun, htold⟩ := runs_serve client hstep rfl
      rw [hhandle, hreply] at htold
      exact ⟨labels', hrun, htold⟩
  | @die world rest client request reply hdies =>
      obtain ⟨env, world', -, hhandle, hreply, rfl⟩ := hdies
      have hstep : (Node.running world).Step (.message request.1 env) world'.exit := by
        simp only [Node.Step, Node.step, hhandle]
      obtain ⟨labels', hrun, htold⟩ := runs_serve client hstep rfl
      rw [hhandle, hreply] at htold
      refine ⟨labels', hrun, htold.trans ?_⟩
      cases reply <;> rfl
  | @leave world =>
      have hcrash : System.Step ⟨.running world, []⟩ .crash ⟨world.exit, []⟩ := .crash rfl
      exact ⟨_, Runs.singleton_iff.mpr hcrash, rfl⟩
  | @«open» rest world hopens =>
      obtain ⟨path, env, state, hopen, rfl⟩ := hopens
      have hstep : (Node.down rest.1 rest.2).Step (.reopen path env)
          (.running ⟨state, { rest.2 with temporaries := 0 }, none⟩) := by
        simp only [Node.Step, Node.step, hopen]
      exact ⟨_, Runs.singleton_iff.mpr (.reopen hstep), rfl⟩

theorem system_of_plain {labels : List (Desk.Plain.Label Nat Request Reply)}
    (hrun : Runs (Desk.Plain.Step projectStore) plain labels plain') :
    ∃ labels', Runs System.Step (systemOf plain) labels' (systemOf plain') ∧
      labels'.filterMap Label.told? =
        (labels.filterMap Desk.Plain.Label.served?).map tellOf := by
  induction hrun with
  | nil => exact ⟨[], .nil, rfl⟩
  | @snoc labels plain plain' label _ hstep ih =>
      obtain ⟨labels', hrun, htold⟩ := ih
      obtain ⟨more, hmore, htold'⟩ := system_step hstep
      refine ⟨labels' ++ more, hrun.append hmore, ?_⟩
      rw [List.filterMap_append, htold, htold', Desk.filterMap_concat, List.map_append]
      cases label.served? <;> rfl

/-! ## calls -/

/-- The store from its first opening on. -/
abbrev StoreRuns (files : Files) : List (Desk.Site.Label Nat Request Reply) →
    Desk.Site World (Database × Files) Nat Request Reply → Prop :=
  Runs (Desk.Site.Step projectStore channelCapacity) (.down (.empty, files))

variable {files : Files} {labels : List (Desk.Site.Label Nat Request Reply)}
  {site : Desk.Site World (Database × Files) Nat Request Reply}

/-- **Calls linearize**: what clients are told is what a system tells them whose
messages are served one by one, and since it was last opened the store has
answered them in the order of its channel, each to its own client. -/
theorem calls_linearize (hrun : StoreRuns files labels site) :
    (∃ labels', Runs System.Step (System.initial files) labels'
        (systemOf (site.plain projectStore)) ∧
      (labels.filterMap Desk.Site.Label.answered?).map tellOf =
        labels'.filterMap Label.told? ++ site.replying.map tellOf) ∧
    ∀ d, site = .up d → ∃ front since, labels = front ++ .open :: since.map .desk ∧
      Desk.Orderly since d := by
  obtain ⟨labels', hsystem, htold⟩ := system_of_plain (Desk.Site.plain_of_runs hrun)
  refine ⟨⟨labels', hsystem, ?_⟩, fun d hd => ?_⟩
  · rw [Desk.Site.answered_of_runs hrun, List.map_append, htold]
  · obtain ⟨world, front, since, hlabels, hsince⟩ := Desk.Site.opening hrun d hd
    exact ⟨front, since, hlabels, Desk.orderly_of_runs hsince⟩

/-! ## what is granted -/

/-- The commit that a call was granted. -/
def granted? (answered : Nat × Request × Reply) : Option (Entry RequestId Command CommitReceipt) :=
  match answered.2.1.1, answered.2.2 with
  | .commit requestId command _, .commit (.ok granted) => some ⟨requestId, command, granted⟩
  | _, _ => none

/-- The rows of the store, or those that it has left behind. -/
def rowsOf (site : Desk.Site World (Database × Files) Nat Request Reply) : Database :=
  (systemOf (site.plain projectStore)).node.rows

omit [Sha256] in
/-- A commit that was granted is one of the ledger. -/
theorem mem_of_granted {labels' : List Label}
    {entries : List (Entry RequestId Command CommitReceipt)}
    (hs : Settled (labels'.filterMap Label.exchange?) entries) {answered : Nat × Request × Reply}
    (hanswered : tellOf answered ∈ labels'.filterMap Label.told?)
    {e : Entry RequestId Command CommitReceipt} (he : granted? answered = some e) :
    e ∈ entries := by
  obtain ⟨client, ⟨work, hwork⟩, reply⟩ := answered
  obtain ⟨label, hlabel, htold⟩ := List.mem_filterMap.mp hanswered
  unfold granted? at he
  split at he
  · next requestId command fault granted hwork hreply =>
    simp only at hwork hreply
    subst hwork hreply
    cases he
    unfold Label.told? at htold
    split at htold
    · next client' work' env reply' changed =>
      simp only [tellOf, Option.some.injEq, Prod.mk.injEq] at htold
      obtain ⟨rfl, rfl, rfl⟩ := htold
      exact hs.accepted (List.mem_filterMap.mpr ⟨_, hlabel, rfl⟩)
    · contradiction
  · contradiction

/-- **What calls were granted lasts**: it is in the file whatever happened
since, and no request was granted twice. -/
theorem granted_calls_last (hrun : StoreRuns files labels site) (hrest : site.replying = []) :
    ∀ e ∈ (labels.filterMap Desk.Site.Label.answered?).filterMap granted?,
      e.receipt.requestId = e.request ∧ (rowsOf site).Logs e.command e.receipt ∧
        ∀ e' ∈ (labels.filterMap Desk.Site.Label.answered?).filterMap granted?,
          e'.request = e.request → e' = e := by
  obtain ⟨labels', hsystem, htold⟩ := system_of_plain (Desk.Site.plain_of_runs hrun)
  obtain ⟨entries, hledger, hrecords⟩ := records_of_runs hsystem
  have hs := settled_of_runs hledger
  have hmem : ∀ e ∈ (labels.filterMap Desk.Site.Label.answered?).filterMap granted?,
      e ∈ entries := by
    intro e he
    obtain ⟨answered, hanswered, he⟩ := List.mem_filterMap.mp he
    rw [Desk.Site.answered_of_runs hrun, hrest, List.append_nil] at hanswered
    exact mem_of_granted hs (htold ▸ List.mem_map_of_mem hanswered) he
  intro e he
  obtain ⟨hname, hlogs⟩ := hrecords.logs (hmem e he)
  exact ⟨hname, hlogs, fun e' he' hrequest =>
    List.inj_on_of_nodup_map hs.nodup (hmem e' he') (hmem e he) hrequest⟩

/-! ## calls return -/

/-- **Every call returns**: since the store was last opened it has taken five
steps for each call and each `shutdown` at most, it only rests where none is
under way, and a worker that is at a message responds, whatever fails. -/
theorem calls_return {d : Desk.State World Nat Request Reply}
    (hrun : StoreRuns files labels (.up d)) :
    ∃ (front : List (Desk.Site.Label Nat Request Reply))
        (since : List (Desk.Label Nat Request Reply)),
      labels = front ++ .open :: since.map .desk ∧
      since.countP Desk.Label.internal ≤ 5 * since.countP (fun label => !label.internal) ∧
      ((∀ label d', Desk.Step World.Serves channelCapacity d label d' → label.internal = false) →
        d.Settled) ∧
      ∀ world client request, d.worker = .busy world client request → ∀ env : Env, env.Alive →
        env.verdict .respond = .completes → ∃ reply world',
          World.ServesIn env world request reply world' ∧
            Desk.Step World.Serves channelCapacity d (.answer client request reply)
              { d.move client (.answered request reply) with
                worker := .replied world client request reply } := by
  obtain ⟨world, front, since, hlabels, hsince⟩ := Desk.Site.opening hrun d rfl
  have hsound := (Desk.Sound.fresh _ world).run hsince
  refine ⟨front, since, hlabels, Desk.steps_le hsince,
    Desk.settled_of_stuck (by decide) World.exists_serves hsound, ?_⟩
  intro world client request hworker env halive harrives
  obtain ⟨reply, world', hserves⟩ := World.exists_servesIn halive harrives world request
  exact ⟨reply, world', hserves, .answer hworker ⟨env, hserves⟩⟩

/-- **A shutdown is final**: all that was sent before has been answered, and
from then on calls are refused. -/
theorem shutdown_is_final {front : List (Desk.Site.Label Nat Request Reply)}
    {before after : List (Desk.Label Nat Request Reply)}
    (hrun : StoreRuns files (front ++ .open :: (before ++ .joins true :: after).map .desk) site) :
    (∀ label ∈ after, label.refuses) ∧
      before.filterMap Desk.Label.sent? = (before.filterMap Desk.Label.answered?).map
        fun answered => (answered.1, answered.2.1) := by
  obtain ⟨site₀, -, hrest⟩ := Runs.append_iff.mp hrun
  obtain ⟨site₁, hopen, hsince⟩ := Runs.cons_iff.mp hrest
  cases hopen with
  | «open» _ =>
      obtain ⟨d, -, hdesk⟩ := Desk.Site.desk_of_runs hsince
      exact Desk.refuses_of_joined hdesk

end Calls

section TwoClients

def firstTrackRequest : Request := ⟨firstTrackWork, by simp [firstTrackWork]⟩

def secondTrackRequest : Request := ⟨secondTrackWork, by simp [secondTrackWork]⟩

def firstTrackReply : Reply := .commit (.ok ⟨⟨Vector.replicate 16 1⟩, firstTrackHash, 1⟩)

def secondTrackReply : Reply := .commit (.ok ⟨⟨Vector.replicate 16 2⟩, secondTrackHash, 2⟩)

/-- A message that nothing disturbs. -/
theorem serves_of_handle [Sha256] {world : World} {request : Request} {reply : Reply}
    (hhandle : (handle request.1 .faultless { world with reply := none }).1 = .ok true)
    (hreply : (handle request.1 .faultless { world with reply := none }).2.reply = some reply) :
    world.Serves request reply (handle request.1 .faultless { world with reply := none }).2 :=
  ⟨.faultless, rfl, Prod.ext hhandle rfl, hreply⟩

/-- The store once the first track is committed. -/
def committedWorld : World :=
  letI := secondTrackSha256
  (handle firstTrackWork .faultless emptyWorld).2

theorem serves_firstTrackRequest :
    letI := secondTrackSha256
    emptyWorld.Serves firstTrackRequest firstTrackReply committedWorld := by
  let _ := secondTrackSha256
  have hhandle : (handle firstTrackWork .faultless emptyWorld).1 = .ok true := by decide +kernel
  have hreply : committedWorld.reply = some firstTrackReply := by decide +kernel
  exact serves_of_handle hhandle hreply

/-- The process dies where it responds. -/
def speechlessEnv : Env :=
  { Env.faultless with verdict := fun site => if site = .respond then .crashes else .completes }

/-- It dies so when the second track is committed. -/
def abandonedWorld : World :=
  letI := secondTrackSha256
  (handle secondTrackWork speechlessEnv { committedWorld with reply := none }).2

theorem diesOver_secondTrackRequest :
    letI := secondTrackSha256
    committedWorld.DiesOver secondTrackRequest none
      (abandonedWorld.state.connection, abandonedWorld.files) := by
  let _ := secondTrackSha256
  have hdies : (handle secondTrackWork speechlessEnv { committedWorld with reply := none }).1 =
      .error .crash := by decide +kernel
  have hreply : abandonedWorld.reply = none := by decide +kernel
  exact ⟨speechlessEnv, abandonedWorld, by decide, Prod.ext hdies rfl, hreply, rfl⟩

/-- What the process has left behind is opened again. -/
def resumed [Sha256] : Option State :=
  (openState ⟨true, ["store"]⟩ abandonedWorld.state.connection .faultless).toOption

theorem isSome_resumed :
    letI := secondTrackSha256
    resumed.isSome := by decide +kernel

def resumedWorld : World :=
  letI := secondTrackSha256
  ⟨resumed.get isSome_resumed, { abandonedWorld.files with temporaries := 0 }, none⟩

theorem opens_emptyWorld :
    letI := secondTrackSha256
    World.Opens (.empty, emptyWorld.files) emptyWorld := by
  let _ := secondTrackSha256
  exact ⟨⟨true, ["store"]⟩, .faultless, emptyWorld.state, rfl, rfl⟩

theorem opens_resumedWorld :
    letI := secondTrackSha256
    World.Opens (abandonedWorld.state.connection, abandonedWorld.files) resumedWorld := by
  let _ := secondTrackSha256
  have hopen : openState ⟨true, ["store"]⟩ abandonedWorld.state.connection .faultless =
      .ok resumedWorld.state := by decide +kernel
  exact ⟨⟨true, ["store"]⟩, .faultless, resumedWorld.state, hopen, rfl⟩

/-- The store once the second track is asked for again. -/
def answeredWorld : World :=
  letI := secondTrackSha256
  (handle secondTrackWork .faultless resumedWorld).2

theorem serves_secondTrackRequest :
    letI := secondTrackSha256
    resumedWorld.Serves secondTrackRequest secondTrackReply answeredWorld := by
  let _ := secondTrackSha256
  have hhandle : (handle secondTrackWork .faultless resumedWorld).1 = .ok true := by decide +kernel
  have hreply : answeredWorld.reply = some secondTrackReply := by decide +kernel
  exact serves_of_handle hhandle hreply

/-- Two clients call, and the first one has its answer when the worker takes
the second request. -/
def firstCalls : List (Desk.Label Nat Request Reply) :=
  [.call 0 firstTrackRequest, .call 1 secondTrackRequest, .send 0 firstTrackRequest,
    .send 1 secondTrackRequest, .take, .answer 0 firstTrackRequest firstTrackReply,
    .returns 0 (some firstTrackReply), .finish 0 firstTrackRequest firstTrackReply, .take]

/-- The second client calls again. -/
def secondCall : List (Desk.Label Nat Request Reply) :=
  [.call 1 secondTrackRequest, .send 1 secondTrackRequest, .take]

def secondAnswer : List (Desk.Label Nat Request Reply) :=
  [.answer 1 secondTrackRequest secondTrackReply, .finish 1 secondTrackRequest secondTrackReply,
    .returns 1 (some secondTrackReply)]

/-- The process dies over the second request and is started again, up to where
the worker takes it again. -/
def busyLabels : List (Desk.Site.Label Nat Request Reply) :=
  (.open :: firstCalls.map .desk) ++ .die 1 secondTrackRequest none :: .open ::
    secondCall.map .desk

theorem storeRuns_busyLabels :
    letI := secondTrackSha256
    ∃ d, StoreRuns emptyWorld.files busyLabels (.up d) ∧
      d.worker = .busy resumedWorld 1 secondTrackRequest := by
  let _ := secondTrackSha256
  have hserves := serves_firstTrackRequest
  obtain ⟨d, hfirst, hworker⟩ : ∃ d, Runs (Desk.Step World.Serves channelCapacity)
      (.fresh emptyWorld) firstCalls d ∧
        d.worker = .busy committedWorld 1 secondTrackRequest :=
    ⟨_, .cons (.call rfl rfl) (.cons (.call rfl rfl) (.cons (.send rfl rfl (by decide))
      (.cons (.send rfl rfl (by decide)) (.cons (.take rfl rfl) (.cons (.answer rfl hserves)
        (.cons (.fetch rfl) (.cons (.finish rfl hserves) (.cons (.take rfl rfl) .nil)))))))), rfl⟩
  obtain ⟨d', hsecond, hbusy⟩ : ∃ d', Runs (Desk.Step World.Serves channelCapacity)
      (.fresh resumedWorld) secondCall d' ∧
        d'.worker = .busy resumedWorld 1 secondTrackRequest :=
    ⟨_, .cons (.call rfl rfl) (.cons (.send rfl rfl (by decide)) (.cons (.take rfl rfl) .nil)), rfl⟩
  have hbegins : StoreRuns emptyWorld.files (.open :: firstCalls.map .desk) (.up d) :=
    .cons (.open opens_emptyWorld) (Desk.Site.runs_desk hfirst)
  exact ⟨d', hbegins.append (.cons (.dieUnanswered hworker diesOver_secondTrackRequest)
    (.cons (.open opens_resumedWorld) (Desk.Site.runs_desk hsecond))), hbusy⟩

/-- The worker answers the second client at last. -/
theorem storeRuns_secondAnswer :
    letI := secondTrackSha256
    ∃ (d : Desk.State World Nat Request Reply)
        (site : Desk.Site World (Database × Files) Nat Request Reply),
      site = .up d ∧ StoreRuns emptyWorld.files (busyLabels ++ secondAnswer.map .desk) site ∧
        site.replying = [] ∧ site.plain projectStore = .up answeredWorld := by
  let _ := secondTrackSha256
  have hserves := serves_secondTrackRequest
  obtain ⟨d, hbusy, hworker⟩ := storeRuns_busyLabels
  obtain ⟨d', hanswers, hready⟩ : ∃ d', Runs (Desk.Step World.Serves channelCapacity) d
      secondAnswer d' ∧ d'.worker = .ready answeredWorld := by
    refine ⟨_, .cons (.answer hworker hserves) (.cons (.finish rfl hserves)
      (.cons (.fetch (q := secondTrackRequest) ?_) .nil)), rfl⟩
    -- an answer arrives wherever its client was
    simp
  exact ⟨d', .up d', rfl, hbusy.append (Desk.Site.runs_desk hanswers),
    by simp [Desk.Site.replying, hready, Desk.Worker.replying],
    by simp [Desk.Site.plain, hready, Desk.Worker.works, Desk.Worker.state]⟩

theorem answered_secondAnswer :
    (busyLabels ++ secondAnswer.map Desk.Site.Label.desk).filterMap
        Desk.Site.Label.answered? =
      [(0, firstTrackRequest, firstTrackReply), (1, secondTrackRequest, secondTrackReply)] := rfl

theorem calls_linearize_secondAnswer :
    letI := secondTrackSha256
    (∃ labels', Runs System.Step (System.initial emptyWorld.files) labels'
        ⟨.running answeredWorld, []⟩ ∧
      labels'.filterMap Label.told? =
        [(0, firstTrackWork, firstTrackReply), (1, secondTrackWork, secondTrackReply)]) ∧
    ∃ d front since,
      busyLabels ++ secondAnswer.map Desk.Site.Label.desk = front ++ .open :: since.map .desk ∧
        Desk.Orderly since (d : Desk.State World Nat Request Reply) := by
  let _ := secondTrackSha256
  obtain ⟨d, site, hsite, hrun, hreplying, hplain⟩ := storeRuns_secondAnswer
  obtain ⟨⟨labels', hsystem, htold⟩, horder⟩ := calls_linearize hrun
  rw [answered_secondAnswer, hreplying, List.map_nil, List.append_nil] at htold
  rw [hplain] at hsystem
  exact ⟨⟨labels', hsystem, htold.symm⟩, d, horder d hsite⟩

/-- What the two clients are granted. -/
def grantedTracks : List (Entry RequestId Command CommitReceipt) :=
  [⟨⟨Vector.replicate 16 1⟩, addFirstTrack, ⟨⟨Vector.replicate 16 1⟩, firstTrackHash, 1⟩⟩,
    ⟨⟨Vector.replicate 16 2⟩, addSecondTrack, ⟨⟨Vector.replicate 16 2⟩, secondTrackHash, 2⟩⟩]

theorem granted_calls_last_secondAnswer :
    letI := secondTrackSha256
    ((busyLabels ++ secondAnswer.map Desk.Site.Label.desk).filterMap
        Desk.Site.Label.answered?).filterMap granted? = grantedTracks ∧
      ∀ e ∈ grantedTracks, e.receipt.requestId = e.request ∧
        answeredWorld.state.connection.Logs e.command e.receipt ∧
          ∀ e' ∈ grantedTracks, e'.request = e.request → e' = e := by
  let _ := secondTrackSha256
  obtain ⟨-, site, -, hrun, hreplying, hplain⟩ := storeRuns_secondAnswer
  have hrows : rowsOf site = answeredWorld.state.connection := by
    simp [rowsOf, hplain, systemOf, Node.rows]
  have hgranted : ((busyLabels ++ secondAnswer.map Desk.Site.Label.desk).filterMap
      Desk.Site.Label.answered?).filterMap granted? = grantedTracks := rfl
  have hlast := granted_calls_last hrun hreplying
  rw [hgranted, hrows] at hlast
  exact ⟨hgranted, hlast⟩

theorem calls_return_busyLabels :
    letI := secondTrackSha256
    ∃ (d : Desk.State World Nat Request Reply) (front : List (Desk.Site.Label Nat Request Reply))
        (since : List (Desk.Label Nat Request Reply)),
      StoreRuns emptyWorld.files busyLabels (.up d) ∧
      busyLabels = front ++ .open :: since.map .desk ∧
      since.countP Desk.Label.internal ≤ 5 * since.countP (fun label => !label.internal) ∧
      ((∀ label d', Desk.Step World.Serves channelCapacity d label d' → label.internal = false) →
        d.Settled) ∧
      ∃ reply d',
        Desk.Step World.Serves channelCapacity d (.answer 1 secondTrackRequest reply) d' := by
  let _ := secondTrackSha256
  obtain ⟨d, hrun, hworker⟩ := storeRuns_busyLabels
  obtain ⟨front, since, hlabels, hle, hsettled, hresponds⟩ := calls_return hrun
  have halive : Env.faultless.Alive := fun _ => by simp [Env.faultless]
  obtain ⟨reply, _, -, hstep⟩ := hresponds _ _ _ hworker .faultless halive rfl
  exact ⟨d, front, since, hrun, hlabels, hle, hsettled, reply, _, hstep⟩

/-- A client has its answer before the store is shut down. -/
def closingCalls : List (Desk.Label Nat Request Reply) :=
  [.call 0 firstTrackRequest, .send 0 firstTrackRequest, .take,
    .answer 0 firstTrackRequest firstTrackReply, .finish 0 firstTrackRequest firstTrackReply,
    .returns 0 (some firstTrackReply), .close, .sendStop, .stop]

/-- It calls once more. -/
def lateCall : List (Desk.Label Nat Request Reply) :=
  [.call 0 firstTrackRequest, .returns 0 none]

theorem shutdown_is_final_lateCall :
    letI := secondTrackSha256
    (∃ d, Runs (Desk.Step World.Serves channelCapacity) (.fresh emptyWorld)
      (closingCalls ++ .joins true :: lateCall) d) ∧
    (∀ label ∈ lateCall, label.refuses) ∧
      closingCalls.filterMap Desk.Label.sent? =
        (closingCalls.filterMap Desk.Label.answered?).map
          fun answered => (answered.1, answered.2.1) := by
  let _ := secondTrackSha256
  have hserves := serves_firstTrackRequest
  obtain ⟨d, hdesk⟩ : ∃ d, Runs (Desk.Step World.Serves channelCapacity) (.fresh emptyWorld)
      (closingCalls ++ .joins true :: lateCall) d :=
    ⟨_, .cons (.call rfl rfl) (.cons (.send rfl rfl (by decide)) (.cons (.take rfl rfl)
      (.cons (.answer rfl hserves) (.cons (.finish rfl hserves) (.cons (.fetch rfl)
        (.cons (.close (by simp [Desk.State.fresh]) rfl) (.cons (.sendStop rfl rfl (by decide))
          (.cons (.stop rfl rfl) (.cons (.join rfl rfl rfl) (.cons (.call rfl rfl)
            (.cons (.refuse rfl rfl) .nil)))))))))))⟩
  have hrun : StoreRuns emptyWorld.files
      ([] ++ .open :: (closingCalls ++ .joins true :: lateCall).map .desk) (.up d) :=
    .cons (.open opens_emptyWorld) (Desk.Site.runs_desk hdesk)
  exact ⟨⟨d, hdesk⟩, shutdown_is_final hrun⟩

end TwoClients

end StitchEditor
