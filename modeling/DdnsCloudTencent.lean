import DdnsCloudTencent.Main
import DdnsCloudTencent.Theory.Acceptance
import DdnsCloudTencent.Theory.Base64
import DdnsCloudTencent.Theory.Concurrent
import DdnsCloudTencent.Theory.ConfigFile
import DdnsCloudTencent.Theory.Deletion
import DdnsCloudTencent.Theory.DomainDecoding
import DdnsCloudTencent.Theory.History
import DdnsCloudTencent.Theory.MemorySafety
import DdnsCloudTencent.Theory.Minify
import DdnsCloudTencent.Theory.PayloadText
import DdnsCloudTencent.Theory.PublicAddress
import DdnsCloudTencent.Theory.RunSafety
import DdnsCloudTencent.Theory.SecondRun
import DdnsCloudTencent.Theory.SecretKey
import DdnsCloudTencent.Theory.Signature
