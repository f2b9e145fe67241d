import Mathlib.Data.List.DropRight
import PieceKeeper.Proofs.Store.Opening
import PieceKeeper.Service.Start

/-!
# Settings that load and the service that starts with them

Loading looks at some of the settings only: the address of the ledger must not be blank, and what
counts seconds or bytes must not be zero.  What else is asked of them is asked by the parts that
are made of them, when the stores have been opened already.  So with settings that load, the
stores may be opened and the service still not start; but only for three settings, and otherwise it
starts.  The check of the address takes slashes alone for an address, which the ledger does not.
-/

namespace PieceKeeper

/-! ## What loading makes sure of -/

/-- Settings that make sense. -/
structure Settings.IsSound (settings : Settings) : Prop where
  base : (Text.trim settings.ledgerBase).isEmpty = false
  timeout : settings.ledgerTimeout ≠ 0
  maxBody : settings.maxBody ≠ 0
  interval : settings.workerInterval ≠ 0

theorem Settings.check_eq_ok {settings : Settings} : settings.check = .ok () ↔ settings.IsSound := by
  rw [check]
  constructor
  · intro h
    split at h
    · cases h
    · rename_i hbase
      split at h
      · cases h
      · rename_i htimeout
        split at h
        · cases h
        · rename_i hmaxBody
          split at h
          · cases h
          · rename_i hinterval
            exact ⟨Bool.eq_false_iff.mpr hbase, htimeout, hmaxBody, hinterval⟩
  · rintro ⟨hbase, htimeout, hmaxBody, hinterval⟩
    rw [hbase, if_neg Bool.false_ne_true, if_neg htimeout, if_neg hmaxBody, if_neg hinterval]

/-- Settings that were loaded make sense. -/
theorem Settings.isSound_of_load {formats : SettingsFile.Formats} {files : FileTree}
    {environment : List (String × String)} {name : String} {settings : Settings}
    (h : Settings.load formats files environment name = .ok settings) : settings.IsSound := by
  rw [load] at h
  dsimp only at h
  split at h
  · cases h
  · obtain ⟨_, hcheck, heq⟩ := Except.bind_eq_ok.mp h
    cases heq
    exact check_eq_ok.mp hcheck

/-! ## The parts -/

/-- Something besides slashes is left of an address without the blanks around it. -/
def Endpoint.IsAddress (base : String) : Prop := ∃ c ∈ (Text.trim base).toList, c ≠ '/'

theorem Endpoint.exists_create {base : String} (h : IsAddress base) :
    ∃ endpoint, Endpoint.create base = .ok endpoint := by
  obtain ⟨c, hmem, hne⟩ := h
  have hrest : Text.dropEnd (· == '/') (Text.trim base).toList ≠ [] := by
    intro hnil
    exact hne (beq_iff_eq.mp (List.rdropWhile_eq_nil_iff.mp hnil c hmem))
  have hnonempty : ¬ (String.ofList (Text.dropEnd (· == '/') (Text.trim base).toList)).isEmpty := by
    rwa [String.isEmpty_iff, String.ofList_eq_empty_iff]
  rw [create]
  rw [if_neg hnonempty]
  exact ⟨_, rfl⟩

theorem Endpoint.create_eq_refuse {base : String} (h : ¬ IsAddress base) :
    Endpoint.create base = refuse (.config "ledger base url cannot be empty") := by
  have hrest : Text.dropEnd (· == '/') (Text.trim base).toList = [] :=
    List.rdropWhile_eq_nil_iff.mpr fun c hmem ↦
      beq_iff_eq.mpr (by_contra fun hne ↦ h ⟨c, hmem, hne⟩)
  rw [create]
  rw [hrest, String.ofList_nil, if_pos (by decide)]

/-- A size that sectors can have. -/
def Manager.IsSectorSize (size : UInt64) : Prop :=
  isPowerOfTwo size.toNat = true ∧ minPieceSize ≤ size

instance (size : UInt64) : Decidable (Manager.IsSectorSize size) :=
  inferInstanceAs (Decidable (_ ∧ _))

theorem Manager.create_eq_ok {size : UInt64} (h : IsSectorSize size) (locks : Nat) :
    Manager.create size locks = .ok ⟨size, locks, h⟩ := dif_pos h

theorem Manager.create_eq_refuse {size : UInt64} (h : ¬ IsSectorSize size) (locks : Nat) :
    Manager.create size locks = refuse (badSectorSize size) := dif_neg h

/-- A worker with an interval waits for its first round, unless that lies beyond the clock. -/
theorem Worker.start_eq {interval : Nat} (hinterval : interval ≠ 0) (now : Nat) :
    Worker.start interval now =
      { interval
        due := now + interval
        phase := if horizon ≤ now + interval then .ended else .waiting } := by
  simp only [Worker.start, hinterval, false_or]

/-! ## Starting -/

namespace Making

variable {α β : Type} {tree later : FileTree}

/-- What making something comes to, and the files it leaves. -/
def outcome (making : Making α) (tree : FileTree) : Outcome α × FileTree := making.run.run tree

theorem outcome_bind (first : Making α) (next : α → Making β) (tree : FileTree) :
    (first >>= next).outcome tree =
      match first.outcome tree with
      | (.ok value, later) => (next value).outcome later
      | (.error fault, later) => (.error fault, later) := by
  simp only [outcome, ExceptT.run_bind, StateT.run_bind]
  change (match first.run.run tree with | (answer, later) => _) = _
  rcases first.run.run tree with ⟨_ | _, later⟩ <;> rfl

theorem outcome_bind_ok {first : Making α} {next : α → Making β} {value : α}
    (h : first.outcome tree = (.ok value, later)) :
    (first >>= next).outcome tree = (next value).outcome later := by
  rw [outcome_bind, h]

theorem outcome_bind_error {first : Making α} {next : α → Making β} {fault : Fault}
    (h : first.outcome tree = (.error fault, later)) :
    (first >>= next).outcome tree = (.error fault, later) := by
  rw [outcome_bind, h]

theorem outcome_change {change : FileTree → Outcome FileTree} (h : change tree = .ok later) :
    (Making.change change).outcome tree = (.ok (), later) := by
  have hget : (get : Making FileTree).outcome tree = (.ok tree, tree) := rfl
  refine (outcome_bind_ok hget).trans ?_
  rw [h]
  rfl

theorem outcome_ofOutcome (answer : Outcome α) : (ofOutcome answer).outcome tree = (answer, tree) := rfl

end Making

namespace Service

open Making

variable {platform : Platform} {settings : Settings} {now : Nat} {tree opened shelved : FileTree}

/-- The service that starts with settings, if its ledger and its manager can be made. -/
def running (platform : Platform) (settings : Settings) (now : Nat) : Outcome Running := do
  let ledger ← Endpoint.create settings.ledgerBase
  let manager ← Manager.create settings.sectorSize 0
  Service.bind platform settings.bindAddress
  let worker :=
    if settings.workerEnabled then some (Worker.start (1000 * settings.workerInterval.toNat) now)
    else none
  return { service := ⟨manager, settings.maxBody.toNat⟩, ledger, worker }

/-- When the stores have been opened, they stay, and the files do not matter any more. -/
theorem outcome_start (htable : Table.openAt platform.databases tree settings.tablePath = .ok opened)
    (hshelf : Shelf.openAt opened settings.shelfPath = .ok shelved) :
    (start platform settings now).outcome tree = (running platform settings now, shelved) := by
  refine (outcome_bind_ok (outcome_change htable)).trans ?_
  refine (outcome_bind_ok (outcome_change hshelf)).trans ?_
  rw [running]
  cases hledger : Endpoint.create settings.ledgerBase with
  | error fault => exact outcome_bind_error (outcome_ofOutcome _)
  | ok ledger =>
    refine (outcome_bind_ok (outcome_ofOutcome _)).trans ?_
    cases hmanager : Manager.create settings.sectorSize 0 with
    | error fault => exact outcome_bind_error (outcome_ofOutcome _)
    | ok manager =>
      refine (outcome_bind_ok (outcome_ofOutcome _)).trans ?_
      cases hbind : Service.bind platform settings.bindAddress with
      | error fault => exact outcome_bind_error (outcome_ofOutcome _)
      | ok _ => exact outcome_bind_ok (outcome_ofOutcome _)

/-- What a service needs besides its stores. -/
structure Fits (platform : Platform) (settings : Settings) : Prop where
  address : Endpoint.IsAddress settings.ledgerBase
  sector : Manager.IsSectorSize settings.sectorSize
  listens : platform.listen settings.bindAddress = .ok ()

/-- What a service is refused for when its stores have been opened. -/
inductive Objects (platform : Platform) (settings : Settings) : Fault → Prop
  | address (h : ¬ Endpoint.IsAddress settings.ledgerBase) :
      Objects platform settings { cause := .config "ledger base url cannot be empty" }
  | sector (h : ¬ Manager.IsSectorSize settings.sectorSize) :
      Objects platform settings { cause := Manager.badSectorSize settings.sectorSize }
  | binding {detail : String} (h : platform.listen settings.bindAddress = .error detail) :
      Objects platform settings { cause := .io detail }

/-- What fits starts, with a worker exactly if one is wanted. -/
theorem Fits.running_eq (h : Fits platform settings) (now : Nat) :
    ∃ service, running platform settings now = .ok service ∧ service.worker =
      if settings.workerEnabled then some (Worker.start (1000 * settings.workerInterval.toNat) now)
      else none := by
  obtain ⟨ledger, hledger⟩ := Endpoint.exists_create h.address
  rw [running, hledger, Manager.create_eq_ok h.sector, Service.bind, h.listens]
  exact ⟨_, rfl, rfl⟩

/-- What does not fit is refused. -/
theorem exists_objects (h : ¬ Fits platform settings) (now : Nat) :
    ∃ fault, running platform settings now = .error fault ∧ Objects platform settings fault := by
  by_cases haddress : Endpoint.IsAddress settings.ledgerBase
  · obtain ⟨ledger, hledger⟩ := Endpoint.exists_create haddress
    by_cases hsector : Manager.IsSectorSize settings.sectorSize
    · cases hlisten : platform.listen settings.bindAddress with
      | ok _ => exact absurd ⟨haddress, hsector, hlisten⟩ h
      | error detail =>
        refine ⟨_, ?_, .binding hlisten⟩
        rw [running, hledger, Manager.create_eq_ok hsector, Service.bind, hlisten]
        rfl
    · refine ⟨_, ?_, .sector hsector⟩
      rw [running, hledger, Manager.create_eq_refuse hsector]
      rfl
  · refine ⟨_, ?_, .address haddress⟩
    rw [running, Endpoint.create_eq_refuse haddress]
    rfl

end Service

/-! ## A file of settings -/

/-- A machine with nothing but a file of settings. -/
def settingsFile (text : String) : FileTree := { nodes := [(["s.json"], .file text.toUTF8.toList)] }

theorem load?_settingsFile (text : String) : SettingsFile.load? .braces (settingsFile text) "s" =
    SettingsFile.Formats.braces.read? "json" text.toUTF8.toList := by
  have hshort : IsPlainName "s" := by decide +kernel
  have hlong : IsPlainName "s.json" := by decide +kernel
  have hmissing : (settingsFile text).find "s" = .error .missing := hshort.find_eq rfl rfl
  have hfound : (settingsFile text).find "s.json" = .ok (.file text.toUTF8.toList) :=
    hlong.find_eq rfl rfl
  have hnone : SettingsFile.isFile (settingsFile text) "s" = false := by
    rw [SettingsFile.isFile, hmissing]
  have hsome : SettingsFile.isFile (settingsFile text) "s.json" = true := by
    rw [SettingsFile.isFile, hfound]
  have hlocate : SettingsFile.locate? .braces (settingsFile text) "s" = some ("s.json", "json") := by
    rw [SettingsFile.locate?, hnone, if_neg Bool.false_ne_true]
    exact List.find?_cons_of_pos hsome
  have hread : (settingsFile text).read "s.json" = .ok text.toUTF8.toList := by
    rw [FileTree.read, hfound]
    rfl
  rw [SettingsFile.load?, hlocate]
  simp only [Option.bind_eq_bind, Option.bind_some, hread]

/-! ## Settings that load -/

/-- **What settings that load are refused for later.**  However files of settings are read and
databases kept, settings that load have an interval, and a worker with it waits for its first round; but
it has ended at once if the clock ends before that.  The address of the ledger is taken exactly if
something besides slashes is left of it without the blanks around, and the sector size exactly if it is
a power of two and not too small.  When the stores have been opened, in files that are new or were
there before, the service starts exactly if its address and its sector size are such and the machine
lets it listen, with a worker exactly if one is wanted.  Otherwise the stores stay as they were opened,
and the refusal is that of the address, of the sector size or of the machine. -/
theorem loaded_settings_start {platform : Platform} {files : FileTree}
    {environment : List (String × String)} {name : String} {settings : Settings}
    (hload : Settings.load platform.formats files environment name = .ok settings) :
    settings.workerInterval ≠ 0 ∧
    (∀ now, Worker.start (1000 * settings.workerInterval.toNat) now =
      { interval := 1000 * settings.workerInterval.toNat
        due := now + 1000 * settings.workerInterval.toNat
        phase := if Worker.horizon ≤ now + 1000 * settings.workerInterval.toNat then .ended
          else .waiting }) ∧
    ((∃ ledger, Endpoint.create settings.ledgerBase = .ok ledger) ↔
      Endpoint.IsAddress settings.ledgerBase) ∧
    (∀ locks, (∃ manager, Manager.create settings.sectorSize locks = .ok manager) ↔
      Manager.IsSectorSize settings.sectorSize) ∧
    ∀ tree opened shelved now, Table.openAt platform.databases tree settings.tablePath = .ok opened →
      Shelf.openAt opened settings.shelfPath = .ok shelved →
      (Service.Fits platform settings →
        ∃ service, (Service.start platform settings now).outcome tree = (.ok service, shelved) ∧
          service.worker =
            if settings.workerEnabled then
              some (Worker.start (1000 * settings.workerInterval.toNat) now)
            else none) ∧
      (¬ Service.Fits platform settings →
        ∃ fault, (Service.start platform settings now).outcome tree = (.error fault, shelved) ∧
          Service.Objects platform settings fault) := by
  have hinterval := (Settings.isSound_of_load hload).interval
  have hpositive : 1000 * settings.workerInterval.toNat ≠ 0 := by
    have hne : settings.workerInterval.toNat ≠ 0 := fun h ↦ hinterval (UInt64.toNat_inj.mp h)
    omega
  refine ⟨hinterval, Worker.start_eq hpositive, ⟨?_, Endpoint.exists_create⟩,
    fun locks ↦ ⟨?_, fun h ↦ ⟨_, Manager.create_eq_ok h locks⟩⟩, ?_⟩
  · rintro ⟨ledger, hledger⟩
    by_contra haddress
    cases hledger.symm.trans (Endpoint.create_eq_refuse haddress)
  · rintro ⟨manager, hmanager⟩
    by_contra hsector
    cases hmanager.symm.trans (Manager.create_eq_refuse hsector locks)
  · intro tree opened shelved now htable hshelf
    rw [Service.outcome_start htable hshelf]
    refine ⟨fun hfits ↦ ?_, fun hnot ↦ ?_⟩
    · obtain ⟨service, hservice, hworker⟩ := hfits.running_eq now
      exact ⟨service, by rw [hservice], hworker⟩
    · obtain ⟨fault, hfault, hobjects⟩ := Service.exists_objects hnot now
      exact ⟨fault, by rw [hfault], hobjects⟩

/-- The files of a machine in whose root the stores were opened. -/
def freshStores : FileTree :=
  (({} : FileTree).put ["pieces.db"] (.file Database.mark)).put ["blobs"] .directory

theorem openAt_freshStores (settings : Settings) (h : settings.dataDirectory = "") :
    ∃ opened, Table.openAt .rowless {} settings.tablePath = .ok opened ∧
      Shelf.openAt opened settings.shelfPath = .ok freshStores := by
  have htable : IsPlainName "pieces.db" := by decide +kernel
  have hshelf : IsPlainName "blobs" := by decide +kernel
  rw [Settings.tablePath, Settings.shelfPath, h]
  exact ⟨_, htable.openAt_table (by decide +kernel) rfl rfl .rowless, hshelf.openAt_shelf rfl rfl⟩

/-- With nothing but the address of the ledger told, and the stores in the root, the service starts
and its worker waits. -/
theorem loaded_settings_start_default : ∃ service,
    (Service.start .plain { ledgerBase := "h", dataDirectory := "" } 0).outcome {} =
      (.ok service, freshStores) ∧
    service.worker = some { interval := 10000, due := 10000, phase := .waiting } := by
  have hload : Settings.load .braces (settingsFile
      "\x7b\"storage\":\x7b\"data_dir\":\"\"\x7d,\"ledger\":\x7b\"base_url\":\"h\"\x7d\x7d") [] "s" =
        .ok { ledgerBase := "h", dataDirectory := "" } := by
    rw [Settings.load, load?_settingsFile]
    decide +kernel
  obtain ⟨-, hworker, -, -, hstart⟩ := @loaded_settings_start .plain _ _ _ _ hload
  obtain ⟨opened, htable, hshelf⟩ := openAt_freshStores { ledgerBase := "h", dataDirectory := "" } rfl
  have haddress : Endpoint.IsAddress "h" := ⟨'h', by decide +kernel, by decide⟩
  obtain ⟨service, hservice, hrunning⟩ :=
    (hstart {} opened freshStores 0 htable hshelf).1 ⟨haddress, by decide +kernel, rfl⟩
  exact ⟨service, hservice, hrunning.trans (congrArg some (hworker 0))⟩

/-- Settings that load and are refused when the stores have been opened: for an address of nothing but
blanks and a slash, and for their sector size.  And settings that load with an interval beyond the
clock, with which the worker does nothing. -/
theorem loaded_settings_refused :
    (Settings.load .braces (settingsFile ("\x7b\"storage\":\x7b\"data_dir\":\"\"\x7d,\"ledger\":" ++
        "\x7b\"base_url\":\" / \"\x7d\x7d")) [] "s" =
      .ok { ledgerBase := " / ", dataDirectory := "" }) ∧
    (Service.start .plain { ledgerBase := " / ", dataDirectory := "" } 0).outcome {} =
      (refuse (.config "ledger base url cannot be empty"), freshStores) ∧
    (Settings.load .braces (settingsFile ("\x7b\"storage\":\x7b\"data_dir\":\"\"\x7d,\"ledger\":" ++
        "\x7b\"base_url\":\"h\"\x7d,\"proof\":\x7b\"sector_size\":1000\x7d\x7d")) [] "s" =
      .ok { ledgerBase := "h", dataDirectory := "", sectorSize := 1000 }) ∧
    (Service.start .plain { ledgerBase := "h", dataDirectory := "", sectorSize := 1000 } 0).outcome {} =
      (refuse (Manager.badSectorSize 1000), freshStores) ∧
    (Settings.load .braces (settingsFile ("\x7b\"ledger\":\x7b\"base_url\":\"h\"\x7d,\"reconciler\":" ++
        "\x7b\"interval_secs\":\"9223372036854775808\"\x7d\x7d")) [] "s" =
      .ok { ledgerBase := "h", workerInterval := 9223372036854775808 }) ∧
    (Worker.start (1000 * 9223372036854775808) 0).phase = .ended := by
  refine ⟨?_, ?_, ?_, ?_, ?_, by decide +kernel⟩
  · rw [Settings.load, load?_settingsFile]
    decide +kernel
  · obtain ⟨opened, htable, hshelf⟩ :=
      openAt_freshStores { ledgerBase := " / ", dataDirectory := "" } rfl
    have haddress : ¬ Endpoint.IsAddress " / " := by
      have hslash : (Text.trim " / ").toList = ['/'] := by decide +kernel
      rintro ⟨c, hmem, hne⟩
      rw [hslash] at hmem
      exact hne (List.mem_singleton.mp hmem)
    rw [Service.outcome_start htable hshelf, Service.running, Endpoint.create_eq_refuse haddress]
    rfl
  · rw [Settings.load, load?_settingsFile]
    decide +kernel
  · obtain ⟨opened, htable, hshelf⟩ :=
      openAt_freshStores { ledgerBase := "h", dataDirectory := "", sectorSize := 1000 } rfl
    have haddress : Endpoint.IsAddress "h" := ⟨'h', by decide +kernel, by decide⟩
    obtain ⟨ledger, hledger⟩ := Endpoint.exists_create haddress
    have hsector : ¬ Manager.IsSectorSize 1000 := by decide +kernel
    rw [Service.outcome_start htable hshelf, Service.running, hledger, Manager.create_eq_refuse hsector]
    rfl
  · rw [Settings.load, load?_settingsFile]
    decide +kernel

end PieceKeeper
