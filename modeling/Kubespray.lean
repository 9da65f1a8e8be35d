import Kubespray.Aws.Inventory
import Kubespray.ControlPlane.EncryptAtRest
import Kubespray.ControlPlane.Kubeadm
import Kubespray.ControlPlane.OneCluster
import Kubespray.ControlPlane.Tokens
import Kubespray.Download.FileCache
import Kubespray.Download.ImageCache
import Kubespray.Download.VerifiedFiles
import Kubespray.Etcd.Backup
import Kubespray.Etcd.CertSync
import Kubespray.Etcd.Certs
import Kubespray.Etcd.Group
import Kubespray.Etcd.Join
import Kubespray.Etcd.MakeSsl
import Kubespray.Etcd.Member
import Kubespray.Etcd.Membership
import Kubespray.Etcd.OpensslConf
import Kubespray.Etcd.PeerAddresses
import Kubespray.Etcd.RemoveNode
import Kubespray.Etcd.Restart
import Kubespray.Inventory.Addresses
import Kubespray.Inventory.Assignment
import Kubespray.Inventory.Builder
import Kubespray.Inventory.Consistent
import Kubespray.Inventory.EtcdSize
import Kubespray.Inventory.FromEmpty
import Kubespray.Inventory.Groups
import Kubespray.Inventory.HostForms
import Kubespray.Inventory.Hostnames
import Kubespray.Inventory.KeptHosts
import Kubespray.Inventory.Leftover
import Kubespray.Inventory.Load
import Kubespray.Inventory.Members
import Kubespray.Inventory.Naming
import Kubespray.Inventory.OwnNames
import Kubespray.Inventory.Purge
import Kubespray.Inventory.Ranges
import Kubespray.Inventory.ReadBack
import Kubespray.Inventory.Rerun
import Kubespray.Inventory.Run
import Kubespray.Inventory.Scale
import Kubespray.Inventory.State
import Kubespray.Lib.Batches
import Kubespray.Lib.Fields
import Kubespray.Lib.Generator
import Kubespray.Lib.Grep
import Kubespray.Lib.Hosts
import Kubespray.Lib.IpAddress
import Kubespray.Lib.LineEdit
import Kubespray.Lib.Listing
import Kubespray.Lib.Network
import Kubespray.Lib.OrderedDict
import Kubespray.Lib.Rounds
import Kubespray.Lib.Runs
import Kubespray.Lib.Tasks
import Kubespray.Lib.Text
import Kubespray.Library.Kube
import Kubespray.NetworkPlugin.CalicoRr
import Kubespray.Offline.Images
import Kubespray.Postinstall.CertSubject
import Kubespray.Postinstall.UpdateEtcd
import Kubespray.Preinstall.EtcHosts
import Kubespray.Preinstall.ResolvConf
import Kubespray.Preinstall.VerifySettings
import Kubespray.Recover.BrokenMembers
import Kubespray.Recover.OldCertificates
import Kubespray.RemoveNode.Play
import Kubespray.RemoveNode.Safety
import Kubespray.Scripts.DownloadHash
import Kubespray.Terraform.Accepted
import Kubespray.Terraform.FlatForm
import Kubespray.Terraform.FloatingIps
import Kubespray.Terraform.Hostfile
import Kubespray.Terraform.Hosts
import Kubespray.Terraform.Lists
import Kubespray.Terraform.Maps
import Kubespray.Terraform.Parsers
import Kubespray.Terraform.Query
import Kubespray.Terraform.State
import Kubespray.Terraform.Versions
import Kubespray.Upgrade.Play
import Kubespray.Upgrade.Rolling
import Kubespray.Upgrade.Schedulability
