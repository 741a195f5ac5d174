import Six.Lib.Index

/-! The names that a policy is written in: object classes, permissions, type attributes, tiers, and
the types of the baseline policy in the order in which `selinux_seed_baseline_policy` registers
them.  `unsigned long` is 32 bits wide. -/

namespace Six.Selinux

inductive SecClass
  | process | file | dir | chrFile | blkFile | lnkFile | fifoFile | sockFile | fd | capability
  | filesystem | binder | serviceManager | security | system
  deriving DecidableEq

/-- The classes from 1 to `SECCLASS_MAX - 1`. -/
def SecClass.all : List SecClass :=
  [.process, .file, .dir, .chrFile, .blkFile, .lnkFile, .fifoFile, .sockFile, .fd, .capability,
    .filesystem, .binder, .serviceManager, .security, .system]

/-- `none` is `SECCLASS_NONE`. -/
def nameToSecclass (name : String) : Option SecClass :=
  List.lookup name
    [("process", .process), ("file", .file), ("dir", .dir), ("chr_file", .chrFile),
      ("blk_file", .blkFile), ("lnk_file", .lnkFile), ("fifo_file", .fifoFile),
      ("sock_file", .sockFile), ("fd", .fd), ("capability", .capability),
      ("capability2", .capability), ("filesystem", .filesystem), ("binder", .binder),
      ("service_manager", .serviceManager), ("security", .security), ("system", .system)]

inductive Tier
  | systemPublic | systemPrivate | vendor
  deriving DecidableEq

def bit (n : Nat) : UInt32 := UInt32.ofNat (2 ^ n)

def attrDomain : UInt32 := bit 0
def attrCoredomain : UInt32 := bit 1
def attrAppdomain : UInt32 := bit 2
def attrVendordomain : UInt32 := bit 3
def attrMlstrusted : UInt32 := bit 4
def attrFileType : UInt32 := bit 5
def attrSystemFileType : UInt32 := bit 6
def attrVendorFileType : UInt32 := bit 7
def attrExecType : UInt32 := bit 8
def attrDevType : UInt32 := bit 9
def attrSysfsType : UInt32 := bit 10
def attrProcType : UInt32 := bit 11
def attrDataFileType : UInt32 := bit 12
def attrSvcmgrType : UInt32 := bit 13

def nameToAttr (name : String) : UInt32 :=
  (List.lookup name
    [("domain", attrDomain), ("coredomain", attrCoredomain), ("appdomain", attrAppdomain),
      ("vendordomain", attrVendordomain), ("mlstrustedsubject", attrMlstrusted),
      ("file_type", attrFileType), ("system_file_type", attrSystemFileType),
      ("vendor_file_type", attrVendorFileType), ("exec_type", attrExecType),
      ("dev_type", attrDevType), ("sysfs_type", attrSysfsType), ("proc_type", attrProcType),
      ("data_file_type", attrDataFileType), ("service_manager_type", attrSvcmgrType)]).getD 0

def sepermRead : UInt32 := bit 0
def sepermWrite : UInt32 := bit 1
def sepermExecute : UInt32 := bit 2
def sepermOpen : UInt32 := bit 3
def sepermIoctl : UInt32 := bit 4
def sepermGetattr : UInt32 := bit 5
def sepermSetattr : UInt32 := bit 6
def sepermCreate : UInt32 := bit 7
def sepermUnlink : UInt32 := bit 8
def sepermLink : UInt32 := bit 9
def sepermRename : UInt32 := bit 10
def sepermAppend : UInt32 := bit 11
def sepermLock : UInt32 := bit 12
def sepermSearch : UInt32 := bit 13
def sepermAddName : UInt32 := bit 14
def sepermRemoveName : UInt32 := bit 15
def sepermRmdir : UInt32 := bit 16
def sepermExecuteNoTrans : UInt32 := bit 17
def sepermEntrypoint : UInt32 := bit 18
def sepermRelabelfrom : UInt32 := bit 19
def sepermRelabelto : UInt32 := bit 20
def sepermMount : UInt32 := bit 21
def sepermUnmount : UInt32 := bit 22
def sepermUse : UInt32 := bit 23
def sepermProcFork : UInt32 := bit 0
def sepermProcTransition : UInt32 := bit 1
def sepermProcSigchld : UInt32 := bit 2
def sepermProcSigkill : UInt32 := bit 3
def sepermProcSigstop : UInt32 := bit 4
def sepermProcSignal : UInt32 := bit 5
def sepermProcPtrace : UInt32 := bit 6
def sepermProcGetsched : UInt32 := bit 7
def sepermProcSetsched : UInt32 := bit 8
def sepermProcGetpgid : UInt32 := bit 9
def sepermProcSetpgid : UInt32 := bit 10
def sepermProcGetcap : UInt32 := bit 11
def sepermProcSetcap : UInt32 := bit 12
def sepermProcSetcurrent : UInt32 := bit 13
def sepermProcSetexec : UInt32 := bit 14
def sepermProcDyntransition : UInt32 := bit 15
def sepermProcSetrlimit : UInt32 := bit 16
def sepermProcExecmem : UInt32 := bit 17
def sepermBinderImpersonate : UInt32 := bit 0
def sepermBinderCall : UInt32 := bit 1
def sepermBinderSetContextMgr : UInt32 := bit 2
def sepermBinderTransfer : UInt32 := bit 3
def sepermSvcmgrAdd : UInt32 := bit 0
def sepermSvcmgrFind : UInt32 := bit 1
def sepermSvcmgrList : UInt32 := bit 2
def sepermSecComputeAv : UInt32 := bit 0
def sepermSecComputeCreate : UInt32 := bit 1
def sepermSecLoadPolicy : UInt32 := bit 2
def sepermSecSetenforce : UInt32 := bit 3
def sepermSecSetcheckreqprot : UInt32 := bit 4
def sepermSecCheckContext : UInt32 := bit 5
def sepermSysIpcInfo : UInt32 := bit 0
def sepermSysSyslogRead : UInt32 := bit 1
def sepermSysSyslogMod : UInt32 := bit 2
def sepermSysSyslogConsole : UInt32 := bit 3
def sepermSysModuleRequest : UInt32 := bit 4

def capChown : Nat := 0
def capDacOverride : Nat := 1
def capDacReadSearch : Nat := 2
def capFowner : Nat := 3
def capFsetid : Nat := 4
def capKill : Nat := 5
def capSetgid : Nat := 6
def capSetuid : Nat := 7
def capSetpcap : Nat := 8
def capNetBindService : Nat := 10
def capNetAdmin : Nat := 12
def capNetRaw : Nat := 13
def capIpcLock : Nat := 14
def capIpcOwner : Nat := 15
def capSysModule : Nat := 16
def capSysRawio : Nat := 17
def capSysChroot : Nat := 18
def capSysPtrace : Nat := 19
def capSysPacct : Nat := 20
def capSysAdmin : Nat := 21
def capSysBoot : Nat := 22
def capSysNice : Nat := 23
def capSysResource : Nat := 24
def capSysTime : Nat := 25
def capSysTtyConfig : Nat := 26
def capMknod : Nat := 27

def rwFilePerms : UInt32 :=
  sepermRead ||| sepermWrite ||| sepermOpen ||| sepermGetattr ||| sepermSetattr ||| sepermIoctl |||
    sepermLock ||| sepermAppend ||| sepermCreate ||| sepermUnlink ||| sepermLink ||| sepermRename

def roFilePerms : UInt32 :=
  sepermRead ||| sepermOpen ||| sepermGetattr ||| sepermIoctl ||| sepermLock

def rxFilePerms : UInt32 :=
  sepermRead ||| sepermOpen ||| sepermGetattr ||| sepermExecute ||| sepermExecuteNoTrans

def rwDirPerms : UInt32 :=
  sepermRead ||| sepermWrite ||| sepermOpen ||| sepermGetattr ||| sepermSetattr ||| sepermSearch |||
    sepermAddName ||| sepermRemoveName ||| sepermCreate ||| sepermRmdir ||| sepermRename

def roDirPerms : UInt32 := sepermRead ||| sepermOpen ||| sepermGetattr ||| sepermSearch

def capabilityPerms : List (String × UInt32) :=
  [("chown", bit capChown), ("dac_override", bit capDacOverride),
    ("dac_read_search", bit capDacReadSearch), ("fowner", bit capFowner),
    ("fsetid", bit capFsetid), ("kill", bit capKill), ("setgid", bit capSetgid),
    ("setuid", bit capSetuid), ("setpcap", bit capSetpcap),
    ("net_bind_service", bit capNetBindService), ("net_admin", bit capNetAdmin),
    ("net_raw", bit capNetRaw), ("ipc_lock", bit capIpcLock), ("ipc_owner", bit capIpcOwner),
    ("sys_module", bit capSysModule), ("sys_rawio", bit capSysRawio),
    ("sys_chroot", bit capSysChroot), ("sys_ptrace", bit capSysPtrace),
    ("sys_pacct", bit capSysPacct), ("sys_admin", bit capSysAdmin), ("sys_boot", bit capSysBoot),
    ("sys_nice", bit capSysNice), ("sys_resource", bit capSysResource),
    ("sys_time", bit capSysTime), ("sys_tty_config", bit capSysTtyConfig), ("mknod", bit capMknod)]

def processPerms : List (String × UInt32) :=
  [("fork", sepermProcFork), ("transition", sepermProcTransition),
    ("sigchld", sepermProcSigchld), ("sigkill", sepermProcSigkill),
    ("sigstop", sepermProcSigstop), ("signal", sepermProcSignal), ("ptrace", sepermProcPtrace),
    ("getsched", sepermProcGetsched), ("setsched", sepermProcSetsched),
    ("getpgid", sepermProcGetpgid), ("setpgid", sepermProcSetpgid), ("getcap", sepermProcGetcap),
    ("setcap", sepermProcSetcap), ("setcurrent", sepermProcSetcurrent),
    ("setexec", sepermProcSetexec), ("dyntransition", sepermProcDyntransition),
    ("setrlimit", sepermProcSetrlimit), ("execmem", sepermProcExecmem)]

def binderPerms : List (String × UInt32) :=
  [("impersonate", sepermBinderImpersonate), ("call", sepermBinderCall),
    ("set_context_mgr", sepermBinderSetContextMgr), ("transfer", sepermBinderTransfer)]

def serviceManagerPerms : List (String × UInt32) :=
  [("add", sepermSvcmgrAdd), ("find", sepermSvcmgrFind), ("list", sepermSvcmgrList)]

def securityPerms : List (String × UInt32) :=
  [("compute_av", sepermSecComputeAv), ("compute_create", sepermSecComputeCreate),
    ("load_policy", sepermSecLoadPolicy), ("setenforce", sepermSecSetenforce),
    ("setcheckreqprot", sepermSecSetcheckreqprot), ("check_context", sepermSecCheckContext)]

def systemPerms : List (String × UInt32) :=
  [("ipc_info", sepermSysIpcInfo), ("syslog_read", sepermSysSyslogRead),
    ("syslog_mod", sepermSysSyslogMod), ("syslog_console", sepermSysSyslogConsole),
    ("module_request", sepermSysModuleRequest)]

def filePerms : List (String × UInt32) :=
  [("read", sepermRead), ("write", sepermWrite), ("execute", sepermExecute),
    ("open", sepermOpen), ("ioctl", sepermIoctl), ("getattr", sepermGetattr),
    ("setattr", sepermSetattr), ("create", sepermCreate), ("unlink", sepermUnlink),
    ("link", sepermLink), ("rename", sepermRename), ("append", sepermAppend),
    ("lock", sepermLock), ("search", sepermSearch), ("add_name", sepermAddName),
    ("remove_name", sepermRemoveName), ("rmdir", sepermRmdir),
    ("execute_no_trans", sepermExecuteNoTrans), ("entrypoint", sepermEntrypoint),
    ("relabelfrom", sepermRelabelfrom), ("relabelto", sepermRelabelto), ("mount", sepermMount),
    ("mounton", sepermMount), ("unmount", sepermUnmount), ("use", sepermUse),
    ("r_file_perms", roFilePerms), ("rw_file_perms", rwFilePerms),
    ("create_file_perms", rwFilePerms), ("rx_file_perms", rxFilePerms),
    ("r_dir_perms", roDirPerms), ("rw_dir_perms", rwDirPerms), ("create_dir_perms", rwDirPerms)]

/-- The classes without permissions of their own, and `SECCLASS_NONE`, have those of files. -/
def permTable : Option SecClass → List (String × UInt32)
  | some .capability => capabilityPerms
  | some .process => processPerms
  | some .binder => binderPerms
  | some .serviceManager => serviceManagerPerms
  | some .security => securityPerms
  | some .system => systemPerms
  | _ => filePerms

def nameToPerm (tclass : Option SecClass) (name : String) : UInt32 :=
  ((permTable tclass).lookup name).getD 0

inductive BaseType
  | unlabeled | kernel | init | su | shell | untrustedApp | servicemanager | vold | ntfs3g
  | storaged | mediaprovider | externalstoraged | adbd | fwupd | httpd | telnetd | fwupdScript
  | initExec | shellExec | suExec | servicemanagerExec | voldExec | ntfs3gExec | storagedExec
  | mediaproviderExec | externalstoragedExec | adbdExec | fwupdExec | fwupdScriptExec
  | fwupdmgrExec | httpdExec | telnetdExec | rootfs | systemFile | vendorFile | vendorConfigsFile
  | sepolicyFile | systemDataFile | vendorDataFile | fwupdDataFile | appDataFile | mediaRwDataFile
  | mntMediaRwFile | mntMediaRwStubFile | vfat | ntfs | tmpfs | userHomeFile | device | nullDevice
  | zeroDevice | randomDevice | ttyDevice | consoleDevice | devpts | kmsgDevice | kmemDevice
  | binderDevice | fuseDevice | adbDevice | powerDevice | blockDevice | rootBlockDevice
  | swapBlockDevice | voldDevice | sdxBlockDevice | ufsDev | ufsRpmbDevice | nvmeDevice
  | nvmeBlockDevice | usbDevice | proc | procMeminfo | procStat | procVersion | procCmdline
  | procDiskstats | procNet | procSysrq | debugfsTracing | sysfs | sysfsPower | sysfsWakeLock
  | sysfsDevicesBlock | sysfsUfs | sysfsNvme | shadowFile | fsckExec | selinuxfs | pstorefs
  | defaultAndroidService | powerService | sysinfoService | voldService | mountService
  | suspendService | mediaproviderService | externalstorageService | fwupdService
  deriving DecidableEq

/-- The SID that `register_type` returns for a type of the baseline policy. -/
def sid (t : BaseType) : Nat := t.ctorIdx

end Six.Selinux
