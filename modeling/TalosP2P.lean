import TalosP2P.Support.Loop
import TalosP2P.Support.Progress
import TalosP2P.Support.Python
import TalosP2P.Support.Overwrite
import TalosP2P.Support.Occurrence
import TalosP2P.Support.Layout
import TalosP2P.Support.Newc
import TalosP2P.Support.Truncation
import TalosP2P.Support.Shell
import TalosP2P.Support.Yaml
import TalosP2P.Support.Text
import TalosP2P.Support.Audit
import TalosP2P.Samekey.Cpio
import TalosP2P.Samekey.Truncation
import TalosP2P.Samekey.Rebuild
import TalosP2P.Samekey.WorkDir
import TalosP2P.Installer.Cpio
import TalosP2P.Installer.Walk
import TalosP2P.Installer.Rootfs
import TalosP2P.Installer.Rewrite
import TalosP2P.Initrd.Interop
import TalosP2P.Initrd.Boot
import TalosP2P.Support.NewcFiles
import TalosP2P.Initrd.Unpack
import TalosP2P.Initrd.Rerun
import TalosP2P.Extensions.Compose
import TalosP2P.Extensions.Archive
import TalosP2P.Installer.Termination
import TalosP2P.Installer.Truncation
import TalosP2P.Extensions.Overlay
import TalosP2P.Uki.Sections
import TalosP2P.Uki.Parts
import TalosP2P.Samekey.Build
import TalosP2P.Installer.Build
import TalosP2P.Matrix.Document
import TalosP2P.Matrix.Gate
import TalosP2P.Matrix.Coherence
import TalosP2P.Matrix.Release
import TalosP2P.Matrix.Installer
import TalosP2P.Matrix.Digests
import TalosP2P.Matrix.Validators
import TalosP2P.Support.History
import TalosP2P.Support.Files
import TalosP2P.Zerotier.Identity
import TalosP2P.Zerotier.Consistency
import TalosP2P.Support.Base64
import TalosP2P.Zerotier.Main
import TalosP2P.Support.Supervision
import TalosP2P.FabricManager.Wrapper
import TalosP2P.FabricManager.Supervision
import TalosP2P.FabricManager.Progress
import TalosP2P.FabricManager.MgmtPort
import TalosP2P.Support.Runs
import TalosP2P.Support.Words
import TalosP2P.Workflow.Sanitize
import TalosP2P.Workflow.Refs
import TalosP2P.Workflow.Publish
import TalosP2P.Installer.Cmdline
import TalosP2P.Support.Go
import TalosP2P.RevPi.Address
import TalosP2P.Samekey.SigKey
import TalosP2P.Support.Replace
import TalosP2P.Support.Kconfig
import TalosP2P.Support.KconfigEdit
import TalosP2P.Kernel.SigningKey
import TalosP2P.Kernel.KeyTransport
import TalosP2P.Support.Utf8
import TalosP2P.Support.Search
import TalosP2P.Support.Utf8Ignore
import TalosP2P.Installer.FinalCheck
import TalosP2P.Support.LineSub
import TalosP2P.Support.GitDiff
import TalosP2P.Nvidia.Remap
import TalosP2P.Nvidia.Redist
import TalosP2P.Support.GitApply
import TalosP2P.Nvidia.Prepare
import TalosP2P.Support.PosixPath
import TalosP2P.Support.Tar
import TalosP2P.Support.UnionFs
import TalosP2P.Support.OciLayer
import TalosP2P.Samekey.Image
import TalosP2P.Support.Fields
import TalosP2P.Gdrdrv.ProcDevices
import TalosP2P.Gdrdrv.Device
